/-
# Offsets and pointers

The indices of a draw call and the pointer of a vertex attribute are byte offsets while a buffer
is bound, and pointers otherwise. The handlers keep the two bindings in variables of their own;
in OpenGL ES the element array binding belongs to the vertex array object.
-/

import Lunaria.Gl.Entries
import Lunaria.Lib.Run
import Mathlib.Logic.Function.Basic

namespace Lunaria.Gl

open Lib

/-- What a context of OpenGL ES has bound. -/
structure Context where
  array : Nat
  vao : Nat
  /-- The element array binding of each vertex array object. -/
  elems : Nat → Nat
  /-- The names of vertex array objects, without the default one. -/
  vaos : List Nat

def Context.bound (c : Context) : BufferTarget → Nat
  | .array => c.array
  | .elementArray => c.elems c.vao

/-- `g_gl_bound_array_buf` and `g_gl_bound_elem_buf`, and the host's context. -/
structure Bindings where
  tracked : BufferTarget → Nat
  gl : Context

/-- The calls, with the names that the loop over the argument reads. A count below zero is an error
of OpenGL ES. -/
inductive BindCall
  | bindBuffer (target buf : Nat)
  | deleteBuffers (negative : Bool) (names : List Nat)
  | bindVertexArray (vao : Nat)
  | deleteVertexArrays (names : List Nat)

def bufferTarget (target : Nat) : Option BufferTarget :=
  if target = 0x8892 then some .array else if target = 0x8893 then some .elementArray else none

/-- What the handlers do to their variables. -/
def track (b : BufferTarget → Nat) : BindCall → BufferTarget → Nat
  | .bindBuffer target buf => fun t => if bufferTarget target = some t then buf else b t
  | .deleteBuffers _ names => names.foldl (fun b name t => if name = b t then 0 else b t) b
  | .bindVertexArray _ | .deleteVertexArrays _ => b

/-- What OpenGL ES does. -/
def Context.step (c : Context) : BindCall → Context
  | .bindBuffer target buf =>
    match bufferTarget target with
    | none => c
    | some .array => { c with array := buf }
    | some .elementArray => { c with elems := Function.update c.elems c.vao buf }
  | .deleteBuffers negative names =>
    if negative then c
    else { c with
      array := if c.array ∈ names then 0 else c.array
      elems := Function.update c.elems c.vao
        (if c.elems c.vao ∈ names then 0 else c.elems c.vao) }
  | .bindVertexArray vao => if vao = 0 ∨ vao ∈ c.vaos then { c with vao := vao } else c
  | .deleteVertexArrays names =>
    { c with vao := if c.vao ∈ names then 0 else c.vao, vaos := c.vaos.filter (· ∉ names) }

namespace Bindings

/-- Nothing is bound, and these vertex array objects have been made. -/
def initial (vaos : List Nat) : Bindings := ⟨fun _ => 0, ⟨0, 0, fun _ => 0, vaos⟩⟩

def step (s : Bindings) (call : BindCall) : Bindings := ⟨track s.tracked call, s.gl.step call⟩

/-- Another vertex array object has the same element array buffer, and a call that is an error names
no bound buffer. -/
def Steady (s : Bindings) : BindCall → Prop
  | .bindBuffer _ _ => True
  | .deleteBuffers negative names =>
    negative = true → ∀ t, s.gl.bound t ∈ names → s.gl.bound t = 0
  | .bindVertexArray vao => vao = 0 ∨ vao ∈ s.gl.vaos → s.gl.elems vao = s.gl.elems s.gl.vao
  | .deleteVertexArrays names => s.gl.vao ∈ names → s.gl.elems 0 = s.gl.elems s.gl.vao

theorem track_delete (b : BufferTarget → Nat) (negative : Bool) (names : List Nat)
    (t : BufferTarget) :
    track b (.deleteBuffers negative names) t = if b t ∈ names then 0 else b t := by
  rw [track]
  induction names generalizing b with
  | nil => rfl
  | cons name names ih =>
    rw [List.foldl_cons, ih]
    by_cases hname : name = b t
    · simp [hname]
    · simp [hname, Ne.symm hname]

/-- The variables say what is bound. -/
def Tracked (s : Bindings) : Prop := ∀ t, s.tracked t = s.gl.bound t

/-- **The step lemma.** A steady call leaves the variables right. -/
theorem Tracked.step {s : Bindings} (h : s.Tracked) {call : BindCall} (hsteady : s.Steady call) :
    (s.step call).Tracked := by
  intro t
  cases call with
  | bindBuffer target buf =>
    simp only [Bindings.step, track, h t, Context.step]
    rcases bufferTarget target with _ | _ | _ <;> cases t <;> simp [Context.bound]
  | deleteBuffers negative names =>
    simp only [Bindings.step, track_delete, h t, Context.step]
    cases negative with
    | true =>
      by_cases hname : s.gl.bound t ∈ names
      · simp [hsteady rfl t hname]
      · simp [hname]
    | false =>
      cases t with
      | array => rfl
      | elementArray => exact (Function.update_self s.gl.vao _ s.gl.elems).symm
  | bindVertexArray vao =>
    simp only [Bindings.step, track, h t, Context.step]
    split_ifs with hvao
    · cases t with
      | array => rfl
      | elementArray => exact (hsteady hvao).symm
    · rfl
  | deleteVertexArrays names =>
    simp only [Bindings.step, track, h t, Context.step]
    cases t with
    | array => rfl
    | elementArray =>
      split_ifs with hvao
      · exact (hsteady hvao).symm
      · rfl

/-- The entry points, and the binding that matters to them. -/
def uses : List (Entry × BufferTarget) :=
  [(.drawElements, .elementArray), (.drawElementsBaseVertex, .elementArray),
    (.drawElementsInstanced, .elementArray), (.drawElementsInstancedBaseVertex, .elementArray),
    (.vertexAttribPointer, .array)]

/-- Whatever the guest passes, the handler calls the namesake with it, as an offset if a buffer is
bound and as a pointer otherwise. -/
def Interprets (s : Bindings) (use : Entry × BufferTarget) : Prop :=
  ∀ c : SvcCall, c.bound = s.tracked → (hostCall c use.1).1 = use.1 ∧
    ∃ (i : Nat) (p : Param), use.1.prototype[i]? = some (.indexed use.2) ∧
      use.1.params[i]? = some p ∧ (hostCall c use.1).2[i]? = 
        some (if s.gl.bound use.2 ≠ 0 then .offset (p.slot.value c) else armCptr (p.slot.value c))

theorem exists_indexed {use : Entry × BufferTarget} (huse : use ∈ uses)
    (hne : use.1 ≠ .drawElementsInstanced) : ∃ (i : Nat) (p : Param),
      use.1.prototype[i]? = some (.indexed use.2) ∧ use.1.params[i]? = some p ∧
        p.type = .indexed use.2 := by
  simp only [uses, List.mem_cons, List.not_mem_nil, or_false] at huse
  rcases huse with rfl | rfl | rfl | rfl | rfl
  · exact ⟨3, _, rfl, rfl, rfl⟩
  · exact ⟨3, _, rfl, rfl, rfl⟩
  · exact absurd rfl hne
  · exact ⟨3, _, rfl, rfl, rfl⟩
  · exact ⟨5, _, rfl, rfl, rfl⟩

/-- **Offsets and pointers.** After steady calls all handlers tell them apart but the one of
`glDrawElementsInstanced`, which passes no indices. -/
theorem interprets_iff (vaos : List Nat) (calls : List BindCall)
    (hsteady : StepsMeet Steady step (initial vaos) calls) :
    ∀ use ∈ uses, (run step (initial vaos) calls).Interprets use ↔
      use.1 ≠ .drawElementsInstanced := by
  have htracked : (run step (initial vaos) calls).Tracked :=
    run_invariant (fun _ _ h hs => h.step hs) (fun t => by cases t <;> rfl) hsteady
  intro use huse
  constructor
  · intro h heq
    have htarget := (h ⟨fun _ => 0, fun _ => 0, _⟩ rfl).1
    rw [heq] at htarget
    cases htarget
  · intro hne c hbound
    obtain ⟨i, p, hproto, hparam, htype⟩ := exists_indexed huse hne
    refine ⟨if_neg hne, i, p, hproto, hparam, ?_⟩
    rw [hostCall, List.getElem?_map, hparam, Option.map_some, htype, handlerArg, hbound,
      htracked use.2]

theorem interprets_unbound : StepsMeet Steady step (initial [1])
      [.bindBuffer 0x8893 7, .deleteBuffers false [7], .bindVertexArray 1] ∧
    (run step (initial [1]) [.bindBuffer 0x8893 7, .deleteBuffers false [7], .bindVertexArray 1]
      ).Interprets (.drawElements, .elementArray) := by
  refine (and_iff_left_of_imp fun hsteady => ?_).mpr
    ⟨trivial, fun h => absurd h (by decide), fun _ => rfl, trivial⟩
  exact (interprets_iff _ _ hsteady _ (by decide)).mpr (by decide)

/-- A vertex array object without indices is bound behind one with indices, and a pointer goes out
as an offset. -/
theorem not_interprets_vao :
    ¬ (run step (initial [1]) [.bindBuffer 0x8893 7, .bindVertexArray 1]).Interprets
      (.drawElements, .elementArray) := by
  intro h
  obtain ⟨-, i, p, hproto, hparam, harg⟩ := h ⟨fun _ => 0x20000, fun _ => 0, _⟩ rfl
  rcases i with _ | _ | _ | _ | i
  · cases hproto
  · cases hproto
  · cases hproto
  · cases hparam
    cases harg
  · cases hproto

end Bindings

end Lunaria.Gl
