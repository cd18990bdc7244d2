/-
**`simulador.c`: the scheduler of simulated processes.**

A process is a function on the registers in `_cpu`, run once at each of its activations. The timer
calls `escalonador`, which saves `_cpu` in the row of the running process, chooses another one after
more than `NUM_TICKS` ticks, and restores its row; `main` calls `cria_processo` between two ticks.

* `salvaContexto`, `restauraContexto`, `escolheProcesso`, `escalonador`, `criaProcesso` — the
  functions of the source; `none` is `kernel_panic`, or the call of a row without a process.
* `contexto` — where the registers of a process are: in `_cpu` for the running one, in the table for
  the others. `escalonador_eq`: **a tick runs the chosen process on its own registers.**

`criados` and `ativacoes` record the processes created and every activation with the registers it
starts with. The fields `id` and `estado`, the array `memoria` and the list `prontos` are used by no
statement and are left out.
-/

import SistemasOperacionais.Runs.Reach
import Mathlib.Algebra.Ring.Int.Defs
import Mathlib.Logic.Function.Basic

namespace Simulador

/-- The registers of `_cpu`. -/
@[ext]
structure Registradores where
  ci : ℤ
  bd : ℤ
  r0 : ℤ
  r1 : ℤ
  r2 : ℤ
  r3 : ℤ
  r4 : ℤ
  deriving DecidableEq, Repr

/-- All registers zero. -/
def zeros : Registradores := ⟨0, 0, 0, 0, 0, 0, 0⟩

/-- A process body. -/
abbrev Corpo := Registradores → Registradores

/-- A row of `tabela_Processos`. -/
structure Linha extends Registradores where
  processo : Option Corpo
  proximo : ℤ

structure Estado where
  processoId : ℤ
  pid : ℤ
  cpu : Registradores
  tabela : ℤ → Linha
  contador : ℕ
  reentrada : Bool
  /-- the bodies given to `cria_processo`, in order -/
  criados : List Corpo
  /-- the activations: the process, and the registers it starts with -/
  ativacoes : List (ℤ × Registradores)

/-- The globals at the start. -/
def inicio : Estado where
  processoId := -1
  pid := 0
  cpu := zeros
  tabela := fun _ => { zeros with processo := none, proximo := 0 }
  contador := 0
  reentrada := false
  criados := []
  ativacoes := []

def salvaContexto (s : Estado) : Estado :=
  let linha := s.tabela s.pid
  let salva := { linha with
    ci := s.cpu.ci, bd := s.cpu.bd, r0 := s.cpu.r0, r1 := s.cpu.r1, r2 := s.cpu.r2,
    r3 := s.cpu.r3, r4 := s.cpu.r4 }
  { s with tabela := Function.update s.tabela s.pid salva }

def restauraContexto (s : Estado) : Estado :=
  let linha := s.tabela s.pid
  { s with cpu := ⟨linha.ci, linha.bd, linha.r0, linha.r1, linha.r2, linha.r3, linha.r4⟩ }

def escolheProcesso (s : Estado) : ℤ :=
  let meuPid := (s.tabela s.pid).proximo
  if meuPid < 0 then s.processoId else meuPid

/-- `if( ++contador > NUM_TICKS )` -/
def conta (numTicks : ℕ) (s : Estado) : Estado :=
  let s := { s with contador := s.contador + 1 }
  if numTicks < s.contador then { s with pid := escolheProcesso s, contador := 0 } else s

/-- `(tabela_Processos[ pid ].processo)()` -/
def ativa (s : Estado) : Option Estado :=
  (s.tabela s.pid).processo.map fun corpo =>
    { s with cpu := corpo s.cpu, ativacoes := s.ativacoes ++ [(s.pid, s.cpu)] }

def escalonador (numTicks : ℕ) (s : Estado) : Option Estado :=
  if s.reentrada then none
  else
    let s := { s with reentrada := true }
    let s := restauraContexto (conta numTicks (salvaContexto s))
    ativa { s with reentrada := false }

def criaProcesso (numProcessos : ℕ) (s : Estado) (proc : Corpo) : Option Estado :=
  if s.processoId < (numProcessos : ℤ) - 1 then
    let id := s.processoId + 1
    let linha : Linha := { zeros with
      processo := some proc
      proximo := if 0 < id then id - 1 else -1 }
    some { s with
      processoId := id
      tabela := Function.update s.tabela id linha
      criados := s.criados ++ [proc] }
  else none

/-- What happens between two statements of the endless loop of `main`. -/
inductive Chamada
  | cria (proc : Corpo)
  | tick

def passo (numProcessos numTicks : ℕ) (s : Estado) : Chamada → Option Estado
  | .cria proc => criaProcesso numProcessos s proc
  | .tick => escalonador numTicks s

/-! ### What a tick does -/

/-- The registers of process `i`: in `_cpu` if it is the running one. -/
def contexto (s : Estado) (i : ℤ) : Registradores :=
  if i = s.pid then s.cpu else (s.tabela i).toRegistradores

/-- The process that the next tick runs. -/
def escolhido (numTicks : ℕ) (s : Estado) : ℤ :=
  if numTicks < s.contador + 1 then escolheProcesso s else s.pid

/-- The counter after the next tick. -/
def contagem (numTicks : ℕ) (s : Estado) : ℕ :=
  if numTicks < s.contador + 1 then 0 else s.contador + 1

theorem salvaContexto_tabela (s : Estado) (i : ℤ) :
    (salvaContexto s).tabela i = { s.tabela i with toRegistradores := contexto s i } := by
  unfold salvaContexto contexto
  dsimp only
  rw [Function.update_apply]
  split
  · rename_i same
    rw [same]
  · rfl

theorem escolheProcesso_salva (s : Estado) :
    escolheProcesso (salvaContexto s) = escolheProcesso s := by
  have same : ((salvaContexto s).tabela s.pid).proximo = (s.tabela s.pid).proximo := by
    rw [salvaContexto_tabela]
  show (if ((salvaContexto s).tabela s.pid).proximo < 0 then s.processoId
    else ((salvaContexto s).tabela s.pid).proximo) = _
  rw [same]
  rfl

/-- The test of the counter, after the running process was saved. -/
theorem conta_salva (numTicks : ℕ) (s : Estado) :
    conta numTicks (salvaContexto s) =
      { s with
        tabela := (salvaContexto s).tabela
        pid := escolhido numTicks s
        contador := contagem numTicks s } := by
  have chosen := escolheProcesso_salva s
  unfold conta escolhido contagem
  dsimp only [salvaContexto] at chosen ⊢
  split
  · rw [← chosen]
    rfl
  · rfl

/-- **A tick**: the running process is saved, and the chosen one runs on its own registers. -/
theorem escalonador_eq {numTicks : ℕ} {s : Estado} (idle : s.reentrada = false) :
    escalonador numTicks s = (s.tabela (escolhido numTicks s)).processo.map fun corpo =>
      { s with
        tabela := (salvaContexto s).tabela
        pid := escolhido numTicks s
        contador := contagem numTicks s
        cpu := corpo (contexto s (escolhido numTicks s))
        ativacoes := s.ativacoes ++
          [(escolhido numTicks s, contexto s (escolhido numTicks s))] } := by
  have row := salvaContexto_tabela s (escolhido numTicks s)
  have registers : ((salvaContexto s).tabela (escolhido numTicks s)).toRegistradores =
      contexto s (escolhido numTicks s) := by rw [row]
  have body : ((salvaContexto s).tabela (escolhido numTicks s)).processo =
      (s.tabela (escolhido numTicks s)).processo := by rw [row]
  unfold escalonador
  rw [if_neg (Bool.eq_false_iff.mp idle)]
  dsimp only
  rw [conta_salva, ← registers, ← body, ← idle]
  rfl

end Simulador
