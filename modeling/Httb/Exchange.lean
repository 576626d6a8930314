import Httb.Response

/-!
# One Exchange of the Blocking Client

`execute_blocking` up to its redirects (`src/client.cpp`): resolve, connect, write, read,
shut down, over TLS or a plain connection. The steps that Asio and Beast perform answer
with an arbitrary `Outcomes`; one variable `ec` is shared by all steps that do not throw,
and one exception is swallowed.

## Key Result

- `executeBlocking`'s answer tells a failed exchange from an HTTP answer exactly when
  `FailuresShow` (`honest_exchange_iff`)
-/

namespace Httb

/-! ## The steps of an exchange -/

/-- How the I/O steps of an exchange end; a code that is not `failed` is success. -/
structure Outcomes where
  resolve : ErrorCode := {}
  /-- `ERR_get_error()`, when the host name for SNI cannot be set. -/
  sni : Option Int32 := none
  connect : ErrorCode := {}
  handshake : ErrorCode := {}
  write : ErrorCode := {}
  read : ErrorCode := {}
  message : BeastResponse := {}
  shutdown : ErrorCode := {}
  /-- A failed read leaves the status of the message as it was constructed. -/
  result_of_failed_read : read.failed = true → message.result = .ok := by decide

/-- The variables of `execute_blocking` that its `try` block assigns. -/
structure Locals where
  ec : ErrorCode
  res : BeastResponse

/-- The ways out of the `try` block. -/
inductive TryExit where
  | completed
  | returned (resp : Response)
  | threw (code : ErrorCode)

/-- The codes of an ended stream that the TLS branch takes back. -/
def clearStreamEnd (l : Locals) : Locals :=
  let l := if l.ec = .streamTruncated then { l with ec := l.ec.cleared } else l
  if l.ec = .eof then { l with ec := l.ec.cleared } else l

section Steps

variable [BoostErrors]

/-- The TLS branch of the `try` block. -/
def sslBranch (o : Outcomes) (resp : Response) (l : Locals) : TryExit × Locals :=
  match o.sni with
  | some error => (.returned (boostErrToRepErr resp ⟨error, .ssl⟩), l)
  | none =>
    -- these two throw, and leave `ec` as resolving left it
    if o.connect.failed then (.threw o.connect, l)
    else if o.handshake.failed then (.threw o.handshake, l)
    else
      -- the three steps assign to the same variable
      let l := { l with ec := o.write }
      let l := { l with ec := o.read, res := o.message }
      let l := { l with ec := o.shutdown }
      (.completed, clearStreamEnd l)

/-- The plain branch of the `try` block. -/
def plainBranch (o : Outcomes) (l : Locals) : TryExit × Locals :=
  if o.connect.failed then (.threw o.connect, l)
  else
    let l := { l with ec := o.write }
    let l := { l with ec := o.read, res := o.message }
    -- this shutdown throws, so the code of the read stays in `ec`
    if o.shutdown.failed then (.threw o.shutdown, l) else (.completed, l)

/-- What an exchange gives: `execute_blocking` returns at once, or goes on to look for a
redirect. -/
inductive Exchanged where
  | failed (resp : Response)
  | answered (resp : Response)

/-- The response that an exchange made. -/
def Exchanged.resp : Exchanged → Response
  | .failed resp => resp
  | .answered resp => resp

variable [Toolbox]

/-- What follows the `try` block. -/
def afterTry (resp : Response) (l : Locals) : Exchanged :=
  if l.ec.failed && !l.ec.isNotConnected then .failed (boostErrToRepErr resp l.ec)
  else .answered (responseOfBlocking l.res)

/-- `execute_blocking` up to its redirects. -/
def exchange (ssl : Bool) (o : Outcomes) : Exchanged :=
  let resp : Response := {}
  let l : Locals := { ec := o.resolve, res := {} }
  if l.ec.failed then .failed (boostErrToRepErr resp l.ec)
  else
    match if ssl then sslBranch o resp l else plainBranch o l with
    | (.completed, l) => afterTry resp l
    | (.returned resp, _) => .failed resp
    | (.threw code, l) =>
      -- the handler swallows one code, and the function goes on below the block
      if !code.isNotConnected then .failed (boostErrToRepErr resp code) else afterTry resp l

end Steps

/-- Every step succeeds, and the message is read. -/
def Outcomes.success (message : BeastResponse) : Outcomes where
  message := message
  result_of_failed_read h := by cases h

/-- An exchange in which nothing fails answers with the message. -/
theorem exchange_success [BoostErrors] [Toolbox] (ssl : Bool) (message : BeastResponse) :
    exchange ssl (.success message) = .answered (responseOfBlocking message) := by
  cases ssl <;> rfl

/-! ## What a failed exchange must not look like -/

/-- `http::read` is reached. -/
def Outcomes.readReached (ssl : Bool) (o : Outcomes) : Bool :=
  !o.resolve.failed && !o.connect.failed && (!ssl || o.sni.isNone && !o.handshake.failed)

/-- Success, or one of the codes that `execute_blocking` tolerates by name. -/
def ErrorCode.tolerated (ec : ErrorCode) : Bool :=
  !ec.failed || ec = streamTruncated || ec = eof || ec.isNotConnected

theorem ErrorCode.tolerated_eq_false_iff {ec : ErrorCode} :
    ec.tolerated = false ↔
      ec.failed = true ∧ ec ≠ streamTruncated ∧ ec ≠ eof ∧ ec.isNotConnected = false := by
  simp [tolerated, and_assoc]

/-- An HTTP answer was received. -/
def Outcomes.readFine (ssl : Bool) (o : Outcomes) : Bool := o.readReached ssl && o.read.tolerated

/-- The response tells whether an HTTP answer was received: a code below the offset of
internal errors is only given then, and any other exchange gives an internal error. -/
def Honest (ssl : Bool) (o : Outcomes) (resp : Response) : Prop :=
  (resp.code < Response.INTERNAL_ERROR_OFFSET → o.readFine ssl = true) ∧
    (o.readFine ssl = false → resp.isInternalError = true)

/-- The code is still at the offset or above when the offset is added to it. -/
def ErrorCode.Shows (ec : ErrorCode) : Prop := 0 ≤ ec.value ∧ ec.value ≤ 2147482647

/-- A step that throws fails visibly. -/
def ErrorCode.ThrowShows (ec : ErrorCode) : Prop := ec.isNotConnected = false ∧ ec.Shows

/-- The exchange over TLS fails visibly: a read failure shows only through a shutdown that
fails after it. -/
def Outcomes.SslFailuresShow (o : Outcomes) : Prop :=
  match o.sni with
  | some error => (⟨error, .ssl⟩ : ErrorCode).Shows
  | none =>
    if o.connect.failed then o.connect.ThrowShows
    else if o.handshake.failed then o.handshake.ThrowShows
    else o.read.tolerated = true ∨ o.shutdown.tolerated = false ∧ o.shutdown.Shows

/-- The exchange over a plain connection fails visibly. -/
def Outcomes.PlainFailuresShow (o : Outcomes) : Prop :=
  if o.connect.failed then o.connect.ThrowShows
  else o.read.tolerated = true ∨
    (if o.shutdown.failed && !o.shutdown.isNotConnected then o.shutdown.Shows else o.read.Shows)

/-- The failing step that decides the answer leaves a code that shows. -/
def Outcomes.FailuresShow (ssl : Bool) (o : Outcomes) : Prop :=
  if o.resolve.failed then o.resolve.Shows
  else if ssl then o.SslFailuresShow else o.PlainFailuresShow

section Honesty

variable {ssl : Bool} {o : Outcomes} {resp : Response}

theorem honest_of_readFine (h : o.readFine ssl = true) : Honest ssl o resp :=
  ⟨fun _ => h, fun h' => by simp [h] at h'⟩

theorem honest_iff_of_not_readFine (h : o.readFine ssl = false) :
    Honest ssl o resp ↔ Response.INTERNAL_ERROR_OFFSET ≤ resp.code := by
  have hlt : resp.code < Response.INTERNAL_ERROR_OFFSET ↔
      ¬ Response.INTERNAL_ERROR_OFFSET ≤ resp.code := Int32.not_le.symm
  rw [Honest, hlt, h]
  constructor
  · intro ⟨h₁, _⟩
    by_contra hc
    cases h₁ hc
  · intro hle
    exact ⟨fun hc => absurd hle hc, fun _ => by simp [Response.isInternalError, hle]⟩

theorem offset_le_iff (v : Int32) :
    Response.INTERNAL_ERROR_OFFSET ≤ Response.INTERNAL_ERROR_OFFSET + v ↔
      0 ≤ v ∧ v ≤ 2147482647 := by
  have hoffset : Response.INTERNAL_ERROR_OFFSET.toInt = 1000 := rfl
  have hzero : (0 : Int32).toInt = 0 := rfl
  have hmax : (2147482647 : Int32).toInt = 2147482647 := rfl
  have hle : v.toInt ≤ 2147483647 := v.toInt_le
  have hge : -2147483648 ≤ v.toInt := v.le_toInt
  have hpow : (2 : Nat) ^ 32 = 4294967296 := rfl
  rw [Int32.le_iff_toInt_le, Int32.le_iff_toInt_le, Int32.le_iff_toInt_le, Int32.toInt_add,
    hoffset, hzero, hmax, hpow, Int.bmod_def]
  -- the sum wraps around at 2^31
  split_ifs <;> omega

variable [BoostErrors]

/-- An exchange without an answer that ends with an error code is reported as failed when
the code shows. -/
theorem honest_boostErrToRepErr_iff (h : o.readFine ssl = false) (in_ : Response)
    (ec : ErrorCode) : Honest ssl o (boostErrToRepErr in_ ec) ↔ ec.Shows := by
  rw [honest_iff_of_not_readFine h, code_boostErrToRepErr, offset_le_iff, ErrorCode.Shows]

variable [Toolbox]

omit [BoostErrors] in
/-- An exchange without an answer must not end with a message. -/
theorem not_honest_responseOfBlocking (h : o.readFine ssl = false) (res : BeastResponse) :
    ¬ Honest ssl o (responseOfBlocking res) := by
  rw [honest_iff_of_not_readFine h, code_responseOfBlocking, Int32.not_le]
  exact res.result.toInt32_range.2

/-- After the `try` block an exchange without an answer is reported as failed only if `ec`
still says so. -/
theorem honest_afterTry_iff (h : o.readFine ssl = false) (resp : Response) (l : Locals) :
    Honest ssl o (afterTry resp l).resp ↔
      (l.ec.failed = true ∧ l.ec.isNotConnected = false) ∧ l.ec.Shows := by
  rw [afterTry]
  by_cases hec : l.ec.failed = true ∧ l.ec.isNotConnected = false
  · rw [if_pos (by simpa using hec), Exchanged.resp, honest_boostErrToRepErr_iff h]
    exact (and_iff_right hec).symm
  · rw [if_neg (by simpa using hec), Exchanged.resp]
    exact iff_of_false (not_honest_responseOfBlocking h _) fun hc => hec hc.1

/-- On TLS the code that `ec` holds then is the one of the shutdown. -/
theorem honest_afterTry_clearStreamEnd_iff (h : o.readFine ssl = false) (resp : Response)
    (ec : ErrorCode) (res : BeastResponse) :
    Honest ssl o (afterTry resp (clearStreamEnd ⟨ec, res⟩)).resp ↔
      ec.tolerated = false ∧ ec.Shows := by
  rw [honest_afterTry_iff h]
  by_cases hend : ec = .streamTruncated ∨ ec = .eof
  · have htolerated : ec.tolerated = true := by rcases hend with rfl | rfl <;> rfl
    have hcleared : (clearStreamEnd ⟨ec, res⟩).ec.failed = false := by
      rcases hend with rfl | rfl <;> rfl
    simp [htolerated, hcleared]
  · rw [not_or] at hend
    simp [clearStreamEnd, hend.1, hend.2, ErrorCode.tolerated_eq_false_iff]

/-- A step that threw before `ec` was assigned is reported as failed unless its code is
swallowed. -/
theorem honest_threw_iff (h : o.readFine ssl = false) (resp : Response) {l : Locals}
    (hl : l.ec.failed = false) (code : ErrorCode) :
    Honest ssl o (if !code.isNotConnected then Exchanged.failed (boostErrToRepErr resp code)
      else afterTry resp l).resp ↔ code.ThrowShows := by
  rw [ErrorCode.ThrowShows]
  cases hcode : code.isNotConnected
  · simpa [Exchanged.resp] using honest_boostErrToRepErr_iff h resp code
  · simp [honest_afterTry_iff h, hl]

/-- **The plain branch.** -/
theorem honest_exchange_plain_iff (hresolve : o.resolve.failed = false) :
    Honest false o (exchange false o).resp ↔ o.PlainFailuresShow := by
  rw [exchange, Outcomes.PlainFailuresShow]
  simp only [hresolve, Bool.false_eq_true, if_false, plainBranch]
  -- in the order of the steps: the first one that fails decides, but for the shutdown
  cases hconnect : o.connect.failed
  case true =>
    have hfine : o.readFine false = false := by
      simp [Outcomes.readFine, Outcomes.readReached, hconnect]
    simpa using honest_threw_iff hfine {} hresolve o.connect
  case false =>
    cases hread : o.read.tolerated
    case true =>
      refine iff_of_true (honest_of_readFine ?_) (.inl rfl)
      simp [Outcomes.readFine, Outcomes.readReached, hresolve, hconnect, hread]
    case false =>
      have hfine : o.readFine false = false := by simp [Outcomes.readFine, hread]
      have hkept := ErrorCode.tolerated_eq_false_iff.mp hread
      have hafter (res : BeastResponse) :
          Honest false o (afterTry {} ⟨o.read, res⟩).resp ↔ o.read.Shows := by
        rw [honest_afterTry_iff hfine]
        exact and_iff_right ⟨hkept.1, hkept.2.2.2⟩
      cases hshutdown : o.shutdown.failed
      case false => simpa using hafter o.message
      case true =>
        -- the shutdown takes over unless its code is the swallowed one
        cases hswallowed : o.shutdown.isNotConnected
        case false => simpa [hswallowed, Exchanged.resp] using
            honest_boostErrToRepErr_iff hfine {} o.shutdown
        case true => simpa [hswallowed] using hafter o.message

/-- **The TLS branch.** -/
theorem honest_exchange_ssl_iff (hresolve : o.resolve.failed = false) :
    Honest true o (exchange true o).resp ↔ o.SslFailuresShow := by
  rw [exchange, Outcomes.SslFailuresShow]
  simp only [hresolve, Bool.false_eq_true, if_false, if_true, sslBranch]
  cases hsni : o.sni with
  | some error =>
    -- returned from within the `try` block
    have hfine : o.readFine true = false := by simp [Outcomes.readFine, Outcomes.readReached, hsni]
    exact honest_boostErrToRepErr_iff hfine {} ⟨error, .ssl⟩
  | none =>
    cases hconnect : o.connect.failed
    case true =>
      have hfine : o.readFine true = false := by
        simp [Outcomes.readFine, Outcomes.readReached, hconnect]
      simpa using honest_threw_iff hfine {} hresolve o.connect
    case false =>
      cases hhandshake : o.handshake.failed
      case true =>
        have hfine : o.readFine true = false := by
          simp [Outcomes.readFine, Outcomes.readReached, hhandshake]
        simpa using honest_threw_iff hfine {} hresolve o.handshake
      case false =>
        cases hread : o.read.tolerated
        case true =>
          refine iff_of_true (honest_of_readFine ?_) (.inl rfl)
          simp [Outcomes.readFine, Outcomes.readReached, hresolve, hsni, hconnect, hhandshake,
            hread]
        case false =>
          have hfine : o.readFine true = false := by simp [Outcomes.readFine, hread]
          -- only the code of the shutdown is left to tell of the failure
          simpa using honest_afterTry_clearStreamEnd_iff hfine {} o.shutdown o.message

/-- **Honesty of the blocking client, exactly.** -/
theorem honest_exchange_iff (ssl : Bool) (o : Outcomes) :
    Honest ssl o (exchange ssl o).resp ↔ o.FailuresShow ssl := by
  rw [Outcomes.FailuresShow]
  cases hresolve : o.resolve.failed with
  | true =>
    have hfine : o.readFine ssl = false := by
      simp [Outcomes.readFine, Outcomes.readReached, hresolve]
    simpa [exchange, hresolve, Exchanged.resp] using honest_boostErrToRepErr_iff hfine {} o.resolve
  | false =>
    cases ssl with
    | true => simpa using honest_exchange_ssl_iff hresolve
    | false => simpa using honest_exchange_plain_iff hresolve

end Honesty

end Httb
