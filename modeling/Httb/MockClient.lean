import Httb.BaseRequest
import Httb.Response

/-!
# The Mock Client

`httb::mock_client` (`include/httb/mocker/mock_client.h`) answers from a function instead of
the network. Its `execute_in_context` posts a handler to the context, as the real client
leaves a session in it, but then runs the context itself. A context that has run out of work is
stopped, and the handlers of later calls stay where they are.

## Key Results

- `MockClient.execute_eq`: `execute`, which has a context of its own, calls a set callback once
- `MockClient.eachCalledOnce_iff`: several calls on one context, and when each callback is
  called once
-/

namespace Httb

/-- What a call is given: the request, and whether its callback is set. -/
structure MockCall where
  request : BaseRequest
  callback : Bool := true
  deriving DecidableEq

/-- The context: whether it is stopped, and the posted handlers, each with the number of the
call whose arguments it refers to. -/
structure MockContext where
  stopped : Bool := false
  handlers : List ℕ := []
  deriving DecidableEq

/-- Calls on one context: how many there were, and the responses that callbacks were called
with, each with the number of its call. -/
structure MockRun where
  context : MockContext := {}
  calls : ℕ := 0
  delivered : List (ℕ × Response) := []
  deriving DecidableEq

/-- The `runtime_error` "Mock executor did not set." -/
inductive MockError where
  | executorNotSet
  deriving DecidableEq

/-- `httb::mock_client`. -/
structure MockClient where
  executor : Option (BaseRequest → Response) := none

/-! ## The context -/

/-- The posted handler. It holds references to the arguments of its call; `arguments` is what
they lead to when the handler runs. -/
def runHandler (executor : BaseRequest → Response) (arguments : ℕ → MockCall) (ticket : ℕ) :
    List (ℕ × Response) :=
  let call := arguments ticket
  if !call.callback then [] else [(ticket, executor call.request)]

namespace MockRun

/-- `net::post`. -/
def post (s : MockRun) (ticket : ℕ) : MockRun :=
  { s with context := { s.context with handlers := s.context.handlers ++ [ticket] } }

/-- `io_context::run`. -/
def run (executor : BaseRequest → Response) (arguments : ℕ → MockCall) (s : MockRun) : MockRun :=
  if s.context.stopped then s
  else
    { s with
      context := { stopped := true, handlers := [] }
      delivered := s.delivered ++ s.context.handlers.flatMap (runHandler executor arguments) }

end MockRun

namespace MockClient

/-! ## The client -/

/-- `execute_blocking`. -/
def executeBlocking (client : MockClient) (request : BaseRequest) : Except MockError Response :=
  match client.executor with
  | none => .error .executorNotSet
  | some executor => .ok (executor request)

/-- `execute`: the responses that the callback is called with. -/
def execute (client : MockClient) (call : MockCall) : Except MockError (List Response) :=
  match client.executor with
  | none => .error .executorNotSet
  | some executor =>
    let s := (({} : MockRun).post 0).run executor fun _ => call
    .ok (s.delivered.map Prod.snd)

/-- `execute_in_context`. Its own arguments are alive while it runs the context; `left` is what
references to the arguments of earlier calls lead to. -/
def executeInContext (client : MockClient) (left : ℕ → MockCall) (s : MockRun) (call : MockCall) :
    Except MockError MockRun :=
  match client.executor with
  | none => .error .executorNotSet
  | some executor =>
    let ticket := s.calls
    let s := { s with calls := s.calls + 1 }
    .ok ((s.post ticket).run executor fun t => if t = ticket then call else left t)

/-- Calls of `execute_in_context` on one context, and a last `ioc.run()` after them. -/
def serve (client : MockClient) (left : ℕ → MockCall) (s : MockRun) (calls : List MockCall) :
    Except MockError MockRun := do
  let s ← calls.foldlM (client.executeInContext left) s
  match client.executor with
  | none => return s
  | some executor => return s.run executor left

end MockClient

/-- Each of the callbacks was called once, with the response to its own request. -/
def EachCalledOnce (executor : BaseRequest → Response) (requests : List BaseRequest)
    (s : MockRun) : Prop :=
  ∀ ticket request, requests[ticket]? = some request →
    (s.delivered.filter fun d => decide (d.1 = ticket)) = [(ticket, executor request)]

/-! ## What calls do -/

namespace MockClient

variable {executor : BaseRequest → Response} {left : ℕ → MockCall}

/-- With a context of its own the callback is called once, if it is set, with the response
that `execute_blocking` returns. -/
theorem execute_eq (client : MockClient) (call : MockCall) :
    client.execute call = (client.executeBlocking call.request).map fun resp =>
      if call.callback then [resp] else [] := by
  obtain ⟨executor⟩ := client
  obtain ⟨request, callback⟩ := call
  cases executor with
  | none => rfl
  | some executor => cases callback <;> rfl

/-- On a context that is not stopped a call is served at once, and it stops the context. -/
theorem executeInContext_of_running {s : MockRun} (h : s.context = {}) (request : BaseRequest) :
    executeInContext ⟨some executor⟩ left s { request } =
      .ok { context := { stopped := true }
            calls := s.calls + 1
            delivered := s.delivered ++ [(s.calls, executor request)] } := by
  simp [executeInContext, MockRun.post, MockRun.run, runHandler, h]

/-- On a stopped context it leaves its handler behind. -/
theorem executeInContext_of_stopped {s : MockRun} (h : s.context.stopped = true)
    (call : MockCall) : ∃ s', executeInContext ⟨some executor⟩ left s call = .ok s' ∧
      s'.context.stopped = true ∧ s'.delivered = s.delivered := by
  refine ⟨_, rfl, ?_⟩
  simp [MockRun.post, MockRun.run, h]

/-- **Once the context is stopped nothing is delivered**, however many calls follow. -/
theorem serve_of_stopped {s : MockRun} (h : s.context.stopped = true) (calls : List MockCall) :
    ∃ s', serve ⟨some executor⟩ left s calls = .ok s' ∧ s'.delivered = s.delivered := by
  induction calls generalizing s with
  | nil =>
    refine ⟨s, ?_, rfl⟩
    simp only [serve, List.foldlM_nil]
    exact congrArg Except.ok (if_pos h)
  | cons call calls ih =>
    obtain ⟨s₁, hcall, hstopped, hdelivered⟩ :=
      @executeInContext_of_stopped executor left s h call
    obtain ⟨s', hserve, hrest⟩ := ih hstopped
    refine ⟨s', ?_, hrest.trans hdelivered⟩
    rw [← hserve]
    simp only [serve, List.foldlM_cons, hcall]
    rfl

/-- The first call is served, if the context is not stopped before it. -/
theorem serve_cons (request : BaseRequest) (calls : List MockCall) :
    ∃ s', serve ⟨some executor⟩ left {} ({ request } :: calls) = .ok s' ∧
      s'.delivered = [(0, executor request)] := by
  have hfirst := @executeInContext_of_running executor left {} rfl request
  obtain ⟨s', hserve, hdelivered⟩ := @serve_of_stopped executor left
    ⟨{ stopped := true }, 1, [(0, executor request)]⟩ rfl calls
  refine ⟨s', ?_, hdelivered⟩
  rw [← hserve]
  simp only [serve, List.foldlM_cons, hfirst]
  rfl

end MockClient

/-! ## Main result -/

section Once

variable {executor : BaseRequest → Response} {s : MockRun}

theorem eachCalledOnce_of_nothing (h : s.delivered = []) (requests : List BaseRequest) :
    EachCalledOnce executor requests s ↔ requests = [] := by
  constructor
  · intro hall
    cases requests with
    | nil => rfl
    | cons request rest =>
      have hfirst := hall 0 request rfl
      rw [h] at hfirst
      cases hfirst
  · rintro rfl
    exact nofun

theorem eachCalledOnce_of_first {request : BaseRequest}
    (h : s.delivered = [(0, executor request)]) (rest : List BaseRequest) :
    EachCalledOnce executor (request :: rest) s ↔ rest = [] := by
  constructor
  · intro hall
    cases rest with
    | nil => rfl
    | cons second rest =>
      have hsecond := hall 1 second rfl
      rw [h] at hsecond
      cases hsecond
  · rintro rfl ticket request' hrequest
    -- there is no other call
    match ticket, hrequest with
    | 0, hrequest =>
      obtain rfl : request = request' := Option.some.inj hrequest
      rw [h]
      rfl

end Once

/-- **Calls on one context, each with a callback that is set**: all the calls return, and each
callback was called once, with the executor's response to its own request, exactly when
there is at most one call, on a context that is not stopped. -/
theorem MockClient.eachCalledOnce_iff (executor : BaseRequest → Response) (left : ℕ → MockCall)
    (stopped : Bool) (requests : List BaseRequest) :
    ∃ s, serve ⟨some executor⟩ left { context := { stopped } }
        (requests.map fun request => { request }) = .ok s ∧
      (EachCalledOnce executor requests s ↔
        requests = [] ∨ requests.length = 1 ∧ stopped = false) := by
  cases stopped with
  | true =>
    obtain ⟨s, hserve, hdelivered⟩ := @serve_of_stopped executor left
      { context := { stopped := true } } rfl (requests.map fun request => { request })
    refine ⟨s, hserve, ?_⟩
    rw [eachCalledOnce_of_nothing hdelivered]
    simp
  | false =>
    cases requests with
    | nil => exact ⟨_, rfl, iff_of_true nofun (.inl rfl)⟩
    | cons request rest =>
      obtain ⟨s, hserve, hdelivered⟩ := @serve_cons executor left request
        (rest.map fun request => { request })
      refine ⟨s, hserve, ?_⟩
      rw [eachCalledOnce_of_first hdelivered]
      simp

/-- The callback of a second call is not called. -/
theorem MockClient.second_not_called :
    let executor : BaseRequest → Response := fun _ => {}
    let call : MockCall := { request := {} }
    ∃ s, serve ⟨some executor⟩ (fun _ => call) {} [call, call] = .ok s ∧
      s.delivered = [(0, {})] ∧ ¬ EachCalledOnce executor [{}, {}] s := by
  refine ⟨_, rfl, rfl, fun hall => ?_⟩
  have hnone := hall 1 {} rfl
  cases hnone

end Httb
