/-
# Static mutexes of native libraries

A native library's mutex is a bionic object whose first word is replaced, at the first call, by
the address of a glibc mutex. Which kind of mutex that has to be is in the word replaced, and
`default_pthread_mutex_init` compares the initialisers with the word behind the replacement.
-/

import Mathlib.Tactic.NormNum

namespace Lunaria.Native

inductive Kind
  | normal
  | recursive
  | errorcheck
  deriving DecidableEq

inductive MutexCall
  | lock
  | trylock
  | unlock

/-- The bionic initialiser: the bits of the kind in the first word, zeros behind it. -/
def Kind.bionic : Kind → Nat
  | .normal => 0 <<< 14
  | .recursive => 1 <<< 14
  | .errorcheck => 2 <<< 14

/-- `bionic_mutex_init_map`, by the kinds of its glibc initialisers. -/
def bionicMutexInitMap : List Kind := [.normal, .recursive, .errorcheck]

/-! ## Mutexes of glibc -/

def ebusy : Nat := 16
def eperm : Nat := 1
def edeadlk : Nat := 35
def eagain : Nat := 11

/-- A call of the only thread there is, which holds the mutex `held` times: what it returns and
how often the thread holds the mutex then, or nothing if it blocks. -/
def glibcCall (kind : Kind) (held : Nat) (call : MutexCall) : Option (Nat × Nat) :=
  match call, kind, held with
  | .unlock, .normal, _ => some (0, 0)
  | .unlock, _, 0 => some (eperm, 0)
  | .unlock, _, held + 1 => some (0, held)
  | _, _, 0 => some (0, 1)
  | _, .recursive, held + 1 =>
    some (if held + 2 = 2 ^ 32 then (eagain, held + 1) else (0, held + 2))
  | .trylock, _, held + 1 => some (ebusy, held + 1)
  | .lock, .errorcheck, held + 1 => some (edeadlk, held + 1)
  | .lock, .normal, _ + 1 => none

/-- What the calls return, up to the one that blocks. -/
def glibcRun (kind : Kind) : Nat → List MutexCall → List (Option Nat)
  | _, [] => []
  | held, call :: calls =>
    match glibcCall kind held call with
    | none => [none]
    | some (ret, held) => some ret :: glibcRun kind held calls

/-! ## Mutexes of bionic -/

/-- What the kernel promises: no page is mapped where the initialisers point, and `mmap` hands
out a page elsewhere. -/
structure Host where
  mapped : Nat → Bool
  page : Nat
  low : ∀ kind : Kind, mapped kind.bionic = false
  page_ne : ∀ kind : Kind, page ≠ kind.bionic

/-- The first word, and the kind of the glibc mutex on the page with how often it is held. -/
structure Mutex where
  word : Nat
  glibc : Option (Kind × Nat)

variable (host : Host)

/-- `IS_MAPPED`. -/
def Mutex.isMapped (m : Mutex) : Bool :=
  host.mapped m.word || (m.glibc.isSome && m.word == host.page)

/-- `default_pthread_mutex_init`. The loop passes over the initialisers that match. -/
def defaultPthreadMutexInit : Mutex where
  word := host.page
  glibc := (bionicMutexInitMap.find? fun kind => kind.bionic ≠ host.page).map fun kind => (kind, 0)

/-- `bionic_pthread_mutex_lock`, `_trylock` and `_unlock`. -/
def bionicCall (m : Mutex) (call : MutexCall) : Option (Nat × Mutex) := do
  let m := if m.isMapped host then m else defaultPthreadMutexInit host
  let (kind, held) ← m.glibc
  let (ret, held) ← glibcCall kind held call
  some (ret, { m with glibc := some (kind, held) })

def bionicRun : Mutex → List MutexCall → List (Option Nat)
  | _, [] => []
  | m, call :: calls =>
    match bionicCall host m call with
    | none => [none]
    | some (ret, m) => some ret :: bionicRun m calls

theorem defaultPthreadMutexInit_eq :
    defaultPthreadMutexInit host = ⟨host.page, some (.normal, 0)⟩ := by
  simp [defaultPthreadMutexInit, bionicMutexInitMap, (host.page_ne .normal).symm]

theorem bionicRun_initialised (kind : Kind) (held : Nat) (calls : List MutexCall) :
    bionicRun host ⟨host.page, some (kind, held)⟩ calls = glibcRun kind held calls := by
  induction calls generalizing held with
  | nil => rfl
  | cons call calls ih =>
    have hmapped : Mutex.isMapped host ⟨host.page, some (kind, held)⟩ := by simp [Mutex.isMapped]
    rw [bionicRun, glibcRun, bionicCall, hmapped]
    cases hcall : glibcCall kind held call with
    | none => simp [hcall]
    | some result => simp [hcall, ih]

theorem bionicRun_static (kind : Kind) (calls : List MutexCall) :
    bionicRun host ⟨kind.bionic, none⟩ calls = glibcRun .normal 0 calls := by
  cases calls with
  | nil => rfl
  | cons call calls =>
    rw [← bionicRun_initialised host, bionicRun, bionicRun, bionicCall, bionicCall]
    simp [Mutex.isMapped, host.low, defaultPthreadMutexInit_eq]

/-! ## Where the kinds differ -/

/-- The thread, which holds the mutex or not, never unlocks it unheld and never locks it held;
nor does it try a recursive one it holds. -/
def Alternates (kind : Kind) : Bool → List MutexCall → Prop
  | _, [] => True
  | false, .unlock :: _ => False
  | false, _ :: calls => Alternates kind true calls
  | true, .unlock :: calls => Alternates kind false calls
  | true, .lock :: _ => False
  | true, .trylock :: calls => kind = .errorcheck ∧ Alternates kind true calls

theorem glibcRun_eq_iff {kind : Kind} (hkind : kind ≠ .normal) (holds : Bool)
    (calls : List MutexCall) :
    glibcRun .normal holds.toNat calls = glibcRun kind holds.toNat calls ↔
      Alternates kind holds calls := by
  induction calls generalizing holds with
  | nil => cases holds <;> simp [glibcRun, Alternates]
  | cons call calls ih =>
    cases kind with
    | normal => exact absurd rfl hkind
    | recursive | errorcheck =>
      cases holds <;> cases call <;>
        simp_all [glibcRun, glibcCall, Alternates, eperm, ebusy]

/-- **A static mutex behaves as glibc's of its kind exactly if it is a normal one or its thread
alternates between taking and releasing it.** -/
theorem static_mutex_iff (kind : Kind) (calls : List MutexCall) :
    bionicRun host ⟨kind.bionic, none⟩ calls = glibcRun kind 0 calls ↔
      kind = .normal ∨ Alternates kind false calls := by
  rw [bionicRun_static]
  by_cases hkind : kind = .normal
  · simp [hkind]
  · simpa [hkind] using glibcRun_eq_iff hkind false calls

def emptyHost : Host where
  mapped _ := false
  page := 0x10000
  low _ := rfl
  page_ne kind := by cases kind <;> decide

/-- The second lock of a recursive mutex blocks. -/
theorem recursive_mutex_blocks :
    bionicRun emptyHost ⟨Kind.recursive.bionic, none⟩ [.lock, .lock] = [some 0, none] ∧
      glibcRun .recursive 0 [.lock, .lock] = [some 0, some 0] := by
  decide

end Lunaria.Native
