import Httb.Foundation.Runs
import Httb.Response

/-!
# The Body of a Response

`httb::response` extends `io_container`, which has a body and a virtual interface to it, and
keeps its own body in `data`. It overrides all functions of the interface but `clear_body`,
which goes on working on the body of the container.

## Layers

- `BodyFunctions`: the virtual functions, as a table with one entry for each
- `BodyCall`: what a caller can do to the body, and `BodyCall.meant` to the string meant by it
- `OneBody`: all functions that read the body describe that string

## Main Result

- `Response.oneBody_iff_clearsNothing`: they do throughout a run exactly when `clear_body` is
  called on empty bodies only
-/

namespace Httb

open Httb.Foundation

/-! ## Strings in C -/

/-- The character that ends a string in C. -/
def nul : Char := Char.ofNat 0

/-- `std::string::c_str`. -/
def cStr (s : Str) : Str := s ++ [nul]

/-- What a reader of a `const char*` takes for the string. -/
def upToNul (s : Str) : Str := s.takeWhile fun c => c != nul

theorem upToNul_cStr (s : Str) : upToNul (cStr s) = upToNul s := by
  rw [upToNul, cStr, upToNul]
  induction s with
  | nil => simp
  | cons c s ih => rw [List.cons_append, List.takeWhile_cons, List.takeWhile_cons, ih]

/-! ## The virtual functions -/

/-- The virtual functions of `io_container`, for a class with objects in `σ`. -/
structure BodyFunctions (σ : Type) where
  /-- `set_body(const std::string&)`. -/
  setBodyCopy : σ → Str → σ
  /-- `set_body(std::string&&)`. -/
  setBodyMove : σ → Str → σ
  getBody : σ → Str
  getBodyC : σ → Str
  hasBody : σ → Bool
  getBodySize : σ → Nat
  clearBody : σ → σ

/-- `io_container::get_body_c`. -/
def IoContainer.getBodyC (c : IoContainer) : Str := cStr c.body

/-- `response::get_body_c`. -/
def Response.getBodyC (r : Response) : Str := cStr r.data

/-- `response::get_body(bool)`. A moved-from string is empty. -/
def Response.getBodyClear (r : Response) (clear : Bool) : Str × Response :=
  if !clear then (r.data, r) else (r.data, { r with data := [] })

/-- `operator<<` with a string. -/
def Response.stream (r : Response) (body : Str) : Response := { r with data := r.data ++ body }

variable [Toolbox]

/-- The functions of `io_container`. -/
def IoContainer.bodyFunctions : BodyFunctions IoContainer where
  setBodyCopy := IoContainer.setBody
  setBodyMove := IoContainer.setBody
  getBody := IoContainer.getBody
  getBodyC := IoContainer.getBodyC
  hasBody := IoContainer.hasBody
  getBodySize := IoContainer.getBodySize
  clearBody := IoContainer.clearBody

namespace Response

/-- What a response inherits: the functions work on the container in it. -/
def inheritedBodyFunctions : BodyFunctions Response :=
  let base := IoContainer.bodyFunctions
  { setBodyCopy := fun r data => { r with toIoContainer := base.setBodyCopy r.toIoContainer data }
    setBodyMove := fun r data => { r with toIoContainer := base.setBodyMove r.toIoContainer data }
    getBody := fun r => base.getBody r.toIoContainer
    getBodyC := fun r => base.getBodyC r.toIoContainer
    hasBody := fun r => base.hasBody r.toIoContainer
    getBodySize := fun r => base.getBodySize r.toIoContainer
    clearBody := fun r => { r with toIoContainer := base.clearBody r.toIoContainer } }

/-- The functions of `response`: those it declares with `override`, the others inherited. -/
def bodyFunctions : BodyFunctions Response :=
  { inheritedBodyFunctions with
    getBody := Response.getBody
    getBodyC := Response.getBodyC
    hasBody := Response.hasBody
    getBodySize := Response.getBodySize
    setBodyCopy := Response.setBody
    setBodyMove := Response.setBody }

end Response

/-- The class of the reference that a call goes through. -/
inductive Receiver where
  | response
  | ioContainer
  deriving DecidableEq

/-- The functions that are called. They are virtual: the object decides, not the reference. -/
def Receiver.functions (_ : Receiver) : BodyFunctions Response := Response.bodyFunctions

/-! ## Runs of calls -/

/-- A call that may change the body. -/
inductive BodyCall where
  | setBodyCopy (through : Receiver) (data : Str)
  | setBodyMove (through : Receiver) (data : Str)
  -- only `response` has the next two
  | stream (body : Str)
  | getBody (clear : Bool)
  | clearBody (through : Receiver)
  deriving DecidableEq

namespace BodyCall

/-- What the call does to the response. -/
def run (r : Response) : BodyCall → Response
  | .setBodyCopy through data => through.functions.setBodyCopy r data
  | .setBodyMove through data => through.functions.setBodyMove r data
  | .stream body => r.stream body
  | .getBody clear => (r.getBodyClear clear).2
  | .clearBody through => through.functions.clearBody r

omit [Toolbox] in
/-- What the call is meant to do to the body. -/
def meant (body : Str) : BodyCall → Str
  | .setBodyCopy _ data => data
  | .setBodyMove _ data => data
  | .stream more => body ++ more
  | .getBody clear => if clear then [] else body
  | .clearBody _ => []

end BodyCall

/-- A response, and the body that the calls so far meant it to have. -/
structure BodyState where
  response : Response
  body : Str
  deriving DecidableEq

/-- Before any call. -/
def BodyState.start (r : Response) : BodyState := ⟨r, r.data⟩

/-- One call. -/
def BodyState.call (s : BodyState) (c : BodyCall) : BodyState :=
  ⟨c.run s.response, c.meant s.body⟩

/-- All that reads the body describes the same string, the one that is meant. -/
structure OneBody (s : BodyState) : Prop where
  getBody : ∀ through : Receiver, through.functions.getBody s.response = s.body
  getBodyC : ∀ through : Receiver,
    upToNul (through.functions.getBodyC s.response) = upToNul s.body
  getBodySize : ∀ through : Receiver, through.functions.getBodySize s.response = s.body.length
  hasBody : ∀ through : Receiver, through.functions.hasBody s.response = !s.body.isEmpty

/-- The call is no `clear_body`, or there is nothing to clear. -/
def ClearsNothing (s : BodyState) (c : BodyCall) : Prop :=
  ∀ through, c = .clearBody through → s.response.data = []

/-! ## What a call does -/

/-- All that reads the body reads `data`. -/
theorem oneBody_iff (s : BodyState) : OneBody s ↔ s.response.data = s.body := by
  constructor
  · intro h
    exact h.getBody .response
  · intro h
    exact {
      getBody := fun _ => h
      getBodyC := fun _ => (upToNul_cStr _).trans (congrArg upToNul h)
      getBodySize := fun _ => congrArg List.length h
      hasBody := fun _ => congrArg (fun body : Str => !body.isEmpty) h }

/-- `clear_body` is the inherited one: the body of the container goes, `data` stays. -/
theorem BodyCall.run_clearBody (r : Response) (through : Receiver) :
    (BodyCall.clearBody through).run r = { r with toIoContainer := r.toIoContainer.clearBody } :=
  rfl

/-- All other calls do to `data` what they are meant to do. -/
theorem BodyCall.data_run {r : Response} {c : BodyCall}
    (h : ∀ through, c = .clearBody through → r.data = []) : (c.run r).data = c.meant r.data := by
  cases c with
  | setBodyCopy through data => rfl
  | setBodyMove through data => rfl
  | stream body => rfl
  | getBody clear => cases clear <;> rfl
  | clearBody through => exact h through rfl

/-! ## Main result -/

/-- **A response has one body** throughout a run exactly when `clear_body` is called on empty
bodies only. -/
theorem Response.oneBody_iff_clearsNothing (r : Response) (calls : List BodyCall) :
    Always OneBody (.start r) (traceOf BodyState.call (.start r) calls) ↔
      Guarded ClearsNothing (.start r) (traceOf BodyState.call (.start r) calls) := by
  apply (run_traceOf BodyState.call (.start r) calls).always_iff_guarded
  · exact (oneBody_iff _).mpr rfl
  · exact fun _ h => h
  · rintro s c _ hs hc rfl
    rw [oneBody_iff] at hs ⊢
    exact (BodyCall.data_run hc).trans (congrArg c.meant hs)
  · -- `data` is left over, and the body is meant to be empty
    rintro s c _ - hc rfl
    simp only [ClearsNothing, Classical.not_forall] at hc
    obtain ⟨through, rfl, hdata⟩ := hc
    rw [oneBody_iff, BodyState.call, BodyCall.run_clearBody]
    exact hdata

omit [Toolbox] in
/-- The body is still there after `clear_body`. -/
theorem Response.body_after_clearBody :
    letI := Toolbox.reference
    let calls := [BodyCall.setBodyCopy .response "x".toList, BodyCall.clearBody .response]
    ¬ Always OneBody (.start {}) (traceOf BodyState.call (.start {}) calls) := by
  let := Toolbox.reference
  intro _ h
  have hbody : "x".toList = [] := (oneBody_iff _).mp h.last
  exact absurd hbody (by decide)

end Httb
