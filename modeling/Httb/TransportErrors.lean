import Httb.Exchange

/-!
# Recognising Transport Errors

A response of `boost_err_to_rep_err` (`src/utils.h`) has the code of the error, moved by an
offset, where a received message has its status. `is_internal_error` and `success`
(`src/response.cpp`) look at the code alone; the resolver's codes are negative, and the offset
moves some of them among the status codes.

## Key Result

- `transportErrors_recognised_iff`: which errors are told from received messages
-/

namespace Httb

variable [BoostErrors] [Toolbox]

/-- The response is recognisable as that of a failed exchange. -/
structure Response.IsTransportError (resp : Response) : Prop where
  internal : resp.isInternalError = true
  no_success : resp.success = false

/-- The offset moves the code past the status codes: it is positive, or it stays below zero. -/
def ErrorCode.Passes (ec : ErrorCode) : Prop := 0 < ec.value ∨ ec.value < -1000

omit [BoostErrors] [Toolbox] in
/-- The two range tests on the sum, which is taken in 32 bits. -/
theorem offset_add_range_iff {v : Int32} (hv : v ≠ 0) :
    (Response.INTERNAL_ERROR_OFFSET + v ≥ Response.INTERNAL_ERROR_OFFSET ∨
      Response.INTERNAL_ERROR_OFFSET + v < 0) ↔ 0 < v ∨ v < -1000 := by
  have hoffset : Response.INTERNAL_ERROR_OFFSET.toInt = 1000 := rfl
  have hzero : (0 : Int32).toInt = 0 := rfl
  have hlow : (-1000 : Int32).toInt = -1000 := rfl
  have hle : v.toInt ≤ 2147483647 := v.toInt_le
  have hge : -2147483648 ≤ v.toInt := v.le_toInt
  have hne : v.toInt ≠ 0 := fun h => hv (Int32.toInt_inj.mp h)
  have hpow : (2 : Nat) ^ 32 = 4294967296 := rfl
  rw [ge_iff_le, Int32.le_iff_toInt_le, Int32.lt_iff_toInt_lt, Int32.lt_iff_toInt_lt,
    Int32.lt_iff_toInt_lt, Int32.toInt_add, hoffset, hzero, hlow, hpow, Int.bmod_def]
  -- a sum that wraps around is negative
  split_ifs <;> omega

omit [BoostErrors] [Toolbox] in
theorem isInternalError_iff (resp : Response) :
    resp.isInternalError = true ↔
      resp.code ≥ Response.INTERNAL_ERROR_OFFSET ∨ resp.code < 0 := by
  simp [Response.isInternalError]

omit [BoostErrors] [Toolbox] in
/-- An internal error is no success. -/
theorem success_of_isInternalError {resp : Response} (h : resp.isInternalError = true) :
    resp.success = false := by
  rw [isInternalError_iff, ge_iff_le, Int32.le_iff_toInt_le, Int32.lt_iff_toInt_lt] at h
  have hoffset : Response.INTERNAL_ERROR_OFFSET.toInt = 1000 := rfl
  have hzero : (0 : Int32).toInt = 0 := rfl
  have hfrom : (200 : Int32).toInt = 200 := rfl
  have hto : (400 : Int32).toInt = 400 := rfl
  by_contra hsuccess
  simp only [Response.success, Bool.not_eq_false, Bool.and_eq_true, decide_eq_true_eq, ge_iff_le,
    Int32.le_iff_toInt_le, Int32.lt_iff_toInt_lt] at hsuccess
  omega

omit [Toolbox] in
theorem isTransportError_boostErrToRepErr_iff (in_ : Response) {ec : ErrorCode}
    (h : ec.failed = true) : (boostErrToRepErr in_ ec).IsTransportError ↔ ec.Passes := by
  have hv : ec.value ≠ 0 := by simpa [ErrorCode.failed] using h
  rw [ErrorCode.Passes, ← offset_add_range_iff hv, ← code_boostErrToRepErr in_ ec,
    ← isInternalError_iff]
  constructor
  · exact fun hr => hr.internal
  · intro hinternal
    exact ⟨hinternal, success_of_isInternalError hinternal⟩

omit [BoostErrors] in
/-- The status of a message is below the offset, and not negative. -/
theorem isInternalError_responseOfBlocking (res : BeastResponse) :
    (responseOfBlocking res).isInternalError = false := by
  obtain ⟨hpos, hlt⟩ := res.result.toInt32_range
  have hnot : ¬ (responseOfBlocking res).isInternalError = true := by
    rw [isInternalError_iff, code_responseOfBlocking, not_or, ge_iff_le, Int32.not_le,
      Int32.not_lt]
    exact ⟨hlt, hpos⟩
  simpa using hnot

/-- **Transport errors are recognisable, exactly.** The response made of a code is an internal
error and no success, while that of a message is no internal error, if and only if the offset
moves the code past the status codes. -/
theorem transportErrors_recognised_iff (in_ : Response) {ec : ErrorCode} (h : ec.failed = true)
    (res : BeastResponse) :
    ((boostErrToRepErr in_ ec).IsTransportError ∧
        (responseOfBlocking res).isInternalError = false ∧
        (responseOfAsync res).isInternalError = false) ↔ ec.Passes := by
  rw [isTransportError_boostErrToRepErr_iff in_ h, responseOfAsync_eq]
  exact and_iff_left ⟨isInternalError_responseOfBlocking res,
    isInternalError_responseOfBlocking res⟩

omit [BoostErrors] [Toolbox] in
/-- A refused connection is recognised. -/
theorem transportErrors_recognised_refused :
    (@boostErrToRepErr .silent {} ⟨111, .system⟩).IsTransportError :=
  ((@transportErrors_recognised_iff .silent .reference {} ⟨111, .system⟩ (by decide) {}).mpr
    (.inl (by decide))).1

omit [BoostErrors] [Toolbox] in
/-- A service that the resolver does not know has the code -8, which becomes 992. -/
theorem resolver_error_not_internal :
    (⟨-8, .addrinfo⟩ : ErrorCode).failed = true ∧
      (@boostErrToRepErr .silent {} ⟨-8, .addrinfo⟩).code = 992 ∧
      (@boostErrToRepErr .silent {} ⟨-8, .addrinfo⟩).isInternalError = false ∧
      ¬ (@boostErrToRepErr .silent {} ⟨-8, .addrinfo⟩).IsTransportError := by
  refine ⟨by decide, by decide, by decide, ?_⟩
  intro h
  exact absurd h.internal (by decide)

end Httb
