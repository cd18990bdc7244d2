import SistemasOperacionais.Runs.Reach
import SistemasOperacionais.Runs.Threads
import SistemasOperacionais.LeitorRedator.Model
import SistemasOperacionais.LeitorRedator.Tallies
import SistemasOperacionais.LeitorRedator.Exclusion
import SistemasOperacionais.LeitorRedator.Progress
import SistemasOperacionais.Data.Ring
import SistemasOperacionais.Data.Cyclic
import SistemasOperacionais.Data.Coalesce
import SistemasOperacionais.Data.Headers
import SistemasOperacionais.Data.Wrap
import SistemasOperacionais.Data.Numeral
import SistemasOperacionais.Data.Select
import SistemasOperacionais.Data.CString
import SistemasOperacionais.Unity.Model
import SistemasOperacionais.Unity.Desaloca
import SistemasOperacionais.Unity.Payload
import SistemasOperacionais.MeuAlloc.Model
import SistemasOperacionais.MeuAlloc.Arena
import SistemasOperacionais.FuncoesEx.Model
import SistemasOperacionais.FuncoesEx.Heap
import SistemasOperacionais.FuncoesEx.Calls
import SistemasOperacionais.FuncoesEx.Conservation
import SistemasOperacionais.FuncoesEx.Freeing
import SistemasOperacionais.ProdutorConsumidor.Slot
import SistemasOperacionais.ProdutorConsumidor.Aula
import SistemasOperacionais.Filosofos.Model
import SistemasOperacionais.Filosofos.Protocol
import SistemasOperacionais.Filosofos.StartUp
import SistemasOperacionais.Mkern0.Model
import SistemasOperacionais.Mkern0.Dispatch
import SistemasOperacionais.Mkern0.Semaphores
import SistemasOperacionais.Mkern0.Lifecycle
import SistemasOperacionais.Mkern0.Sleep
import SistemasOperacionais.Simulador.Model
import SistemasOperacionais.Simulador.Isolation
import SistemasOperacionais.Simulador.RoundRobin
import SistemasOperacionais.Runs.Pipes
import SistemasOperacionais.Pipes.Model
import SistemasOperacionais.Pipes.TokenRing
import SistemasOperacionais.Barbeiro.Model
import SistemasOperacionais.Barbeiro.Accounts
import SistemasOperacionais.Barbeiro.Chair
import SistemasOperacionais.Simulador.StartUp
import SistemasOperacionais.Medias.Thread
import SistemasOperacionais.Medias.Arquivo
import SistemasOperacionais.Medias.Ranking
import SistemasOperacionais.Medias.Pipe
import SistemasOperacionais.BatalhaNaval.Model
import SistemasOperacionais.BatalhaNaval.Scoring
import SistemasOperacionais.BatalhaNaval.Session
import SistemasOperacionais.BatalhaNaval.Fleet
import SistemasOperacionais.MeuAlloc.Lista
import SistemasOperacionais.MeuAlloc.Merge
import SistemasOperacionais.MeuAlloc.Strategies
import SistemasOperacionais.MeuAlloc.RoundTrip
import SistemasOperacionais.MeuAlloc.NextFit
import SistemasOperacionais.Oversized.Selection
import SistemasOperacionais.MemoryManagement.Model
import SistemasOperacionais.MemoryManagement.Requests
import SistemasOperacionais.MemoryManagement.Frames
import SistemasOperacionais.MemoryManagement.OneBlock
import SistemasOperacionais.MemoryManagement.Calls
import SistemasOperacionais.Alp.Server
import SistemasOperacionais.Alp.Cal
import SistemasOperacionais.Diretorios.Search
import SistemasOperacionais.Shell.Comandos
import SistemasOperacionais.Runs.Refine
import SistemasOperacionais.Runs.Durable
import SistemasOperacionais.Runs.Lease
import SistemasOperacionais.Data.Links
import SistemasOperacionais.Data.Singly
import SistemasOperacionais.Data.Intervals
import SistemasOperacionais.Runs.Region
import SistemasOperacionais.Minix.Model
import SistemasOperacionais.Minix.Holes
import SistemasOperacionais.Minix.Clicks
import SistemasOperacionais.Xv6.Log
import SistemasOperacionais.Xv6.Crash
import SistemasOperacionais.Xv6.Reservation
import SistemasOperacionais.Xv6.Bio
import SistemasOperacionais.Xv6.Pipe
import SistemasOperacionais.Runs.Kinship
import SistemasOperacionais.Xv6.Proc
import SistemasOperacionais.Xv6.ProcSteps
import SistemasOperacionais.Xv6.ProcTable
import SistemasOperacionais.Xv6.Sh
import SistemasOperacionais.Xv6.ShGrammar
import SistemasOperacionais.Xv6.ShPrint
import SistemasOperacionais.Runs.Answers
import SistemasOperacionais.Data.Bytes
import SistemasOperacionais.Xv6.Fs
import SistemasOperacionais.Xv6.FsBlocks
import SistemasOperacionais.Xv6.FsFiles
import SistemasOperacionais.Xv6.FsStore
import SistemasOperacionais.Xv6.FsCalls
import SistemasOperacionais.Xv6.Filewrite
