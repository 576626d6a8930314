import Httb.Foundation.Runs
import Httb.UrlRoundTrip

/-!
# The Port as a Number

A request stores its port as a text (`m_port`), which the client connects with; `get_port`
reads a number off it (`src/request.cpp`). The pattern of `parse_url` takes any five digits,
and the cast in `get_port` keeps 16 bits of what they say.

## Key Results

- `portsAgree_iff_lt`: on a port text the two ports agree when the number fits 16 bits
- `portsAgree_iff`: along a run they agree exactly when no URL names a larger port
-/

namespace Httb

open Httb.Foundation

/-! ## The two ports -/

/-- `get_port` does not throw, and gives the number that `get_port_str` shows. -/
def PortsAgree (r : BaseRequest) : Prop :=
  ∃ port, r.getPort = .ok port ∧ port.toNat = decimalValue r.getPortStr

/-- On a text as the pattern takes it `get_port` gives the number up to 16 bits. -/
theorem getPort_of_portText {r : BaseRequest} (h : PortText r.port) :
    ∃ port, r.getPort = .ok port ∧ port.toNat = decimalValue r.port % 65536 := by
  -- five digits are less than an `int` can hold
  have hsmall : decimalValue r.port < 100000 := by
    calc decimalValue r.port < 10 ^ r.port.length := decimalValue_lt h.digits
      _ ≤ 10 ^ 5 := Nat.pow_le_pow_right (by decide) h.length
  have hconverted := stoi_of_digits h.ne_nil h.digits (by omega)
  refine ⟨(Int32.ofNat (decimalValue r.port)).toUInt32.toUInt16, ?_, ?_⟩
  · rw [BaseRequest.getPort, hconverted]
    rfl
  · have hbits : (Int32.ofNat (decimalValue r.port)).toUInt32.toNat =
        decimalValue r.port % 2 ^ 32 := rfl
    rw [UInt32.toNat_toUInt16, hbits]
    omega

theorem portsAgree_iff_lt {r : BaseRequest} (h : PortText r.port) :
    PortsAgree r ↔ decimalValue r.port < 65536 := by
  obtain ⟨port, hport, hvalue⟩ := getPort_of_portText h
  rw [PortsAgree, BaseRequest.getPortStr]
  constructor
  · rintro ⟨port', hport', hvalue'⟩
    rw [hport] at hport'
    obtain rfl : port = port' := Except.ok.inj hport'
    rw [← hvalue']
    exact port.toNat_lt
  · intro hlt
    exact ⟨port, hport, by rw [hvalue, Nat.mod_eq_of_lt hlt]⟩

/-! ## One call -/

/-- The calls that write the port. -/
inductive PortCall where
  | parseUrl (url : Str)
  | setPort (portNumber : UInt16)

section Ports

variable [Toolbox] [BoostRegex]

/-- The effect of a call. -/
def PortCall.apply (r : BaseRequest) : PortCall → BaseRequest
  | .parseUrl url => r.parseUrl url
  | .setPort portNumber => r.setPort portNumber

/-- The URL is not accepted, or it names no port above 65535. -/
def NamesSmallPort (url : Str) : Prop :=
  matchesPattern urlParseRegex url = true → decimalValue (urlParts url).port < 65536

/-- The URL that a call parses names no port above 65535. -/
def PortCall.NamesSmallPort : PortCall → Prop
  | .parseUrl url => Httb.NamesSmallPort url
  | .setPort _ => True

/-- The URL that a constructor parses names no port above 65535. -/
def BaseRequest.Construction.NamesSmallPort : BaseRequest.Construction → Prop
  | .default => True
  | .ofUrl url => Httb.NamesSmallPort url
  | .ofUrlPort url _ => Httb.NamesSmallPort url
  | .ofUrlMethod url _ => Httb.NamesSmallPort url

omit [Toolbox] [BoostRegex] in
/-- The text of a 16-bit number is a port text. -/
theorem portText_decimal (port : UInt16) :
    PortText (decimal port.toNat) ∧ decimalValue (decimal port.toNat) < 65536 := by
  have hlt : port.toNat < 65536 := port.toNat_lt
  refine ⟨⟨Nat.toDigits_ne_nil, ?_, ?_⟩, ?_⟩
  · rw [decimal, Nat.length_toDigits_le_iff (by decide) (by decide)]
    omega
  · intro c hc
    exact Nat.isDigit_of_mem_toDigits (by decide) (by decide) hc
  · rwa [decimalValue_decimal]

/-- What is kept along a run: the port is a port text, and its number fits 16 bits. -/
structure SmallPort (r : BaseRequest) : Prop where
  text : PortText r.port
  small : decimalValue r.port < 65536

/-- `parse_url` stores the port that the URL names, the one of its protocol, or none. -/
theorem smallPort_parseUrl_iff {r : BaseRequest} (h : SmallPort r) (url : Str) :
    PortText (r.parseUrl url).port ∧
      (decimalValue (r.parseUrl url).port < 65536 ↔ NamesSmallPort url) := by
  cases hmatch : matchesPattern urlParseRegex url with
  | false =>
    rw [BaseRequest.parseUrl_of_not_matches hmatch]
    exact ⟨h.text, iff_of_true h.small (by simp [NamesSmallPort, hmatch])⟩
  | true =>
    have hw := urlParts_wellFormed hmatch
    have hnames : NamesSmallPort url ↔ decimalValue (urlParts url).port < 65536 := by
      simp [NamesSmallPort, hmatch]
    rw [BaseRequest.parseUrl_of_matches hmatch, hnames]
    dsimp only
    cases hport : (urlParts url).port with
    | cons c port =>
      rw [if_pos (by simp)]
      have htext : PortText (urlParts url).port :=
        ⟨by simp [hport], hw.port_length, hw.port_class⟩
      rw [hport] at htext
      exact ⟨htext, Iff.rfl⟩
    | nil =>
      -- the defaults are small
      have hnone : decimalValue [] < 65536 := by decide
      rw [if_neg (by simp)]
      split_ifs
      · exact ⟨⟨by decide, by decide, List.all_eq_true.mp rfl⟩, iff_of_true (by decide) hnone⟩
      · exact ⟨⟨by decide, by decide, List.all_eq_true.mp rfl⟩, iff_of_true (by decide) hnone⟩
      · exact ⟨h.text, iff_of_true h.small hnone⟩

theorem portText_apply_iff {r : BaseRequest} (h : SmallPort r) (call : PortCall) :
    PortText (call.apply r).port ∧
      (decimalValue (call.apply r).port < 65536 ↔ call.NamesSmallPort) := by
  cases call with
  | parseUrl url => exact smallPort_parseUrl_iff h url
  | setPort portNumber =>
    obtain ⟨htext, hsmall⟩ := portText_decimal portNumber
    exact ⟨htext, iff_of_true hsmall trivial⟩

/-! ## Runs -/

/-- The constructors parse their URL on a request with a small port. -/
theorem portText_make_iff (start : BaseRequest.Construction) :
    PortText start.make.port ∧
      (decimalValue start.make.port < 65536 ↔ start.NamesSmallPort) := by
  have hdefault : PortText "80".toList := ⟨by decide, by decide, List.all_eq_true.mp rfl⟩
  have hsmall : decimalValue "80".toList < 65536 := by decide
  have hfresh (method : Verb) : SmallPort { method := method : BaseRequest } :=
    ⟨hdefault, hsmall⟩
  cases start with
  | default => exact ⟨hdefault, iff_of_true hsmall trivial⟩
  | ofUrl url => exact smallPort_parseUrl_iff (hfresh .get) url
  | ofUrlPort url port =>
    obtain ⟨htext, hsmall⟩ := portText_decimal port
    exact smallPort_parseUrl_iff (r := { port := decimal port.toNat }) ⟨htext, hsmall⟩ url
  | ofUrlMethod url method => exact smallPort_parseUrl_iff (hfresh method) url

/-- **The two ports, exactly.** In a run of `parse_url` and `set_port` on a newly constructed
request, the numeric and the textual port agree in every state if and only if no URL names a
port above 65535. -/
theorem portsAgree_iff (start : BaseRequest.Construction) (calls : List PortCall) :
    Always PortsAgree start.make (traceOf PortCall.apply start.make calls) ↔
      start.NamesSmallPort ∧ ∀ call ∈ calls, call.NamesSmallPort := by
  obtain ⟨htext, hsmall⟩ := portText_make_iff start
  by_cases hstart : start.NamesSmallPort
  · rw [and_iff_right hstart, ← guarded_traceOf_iff (f := PortCall.apply) (s := start.make)]
    refine (run_traceOf PortCall.apply _ calls).always_iff_guarded
      ⟨htext, hsmall.mpr hstart⟩
      (fun r (hr : SmallPort r) => (portsAgree_iff_lt hr.text).mpr hr.small) ?_ ?_
    · rintro r call - hr hcall rfl
      obtain ⟨htext', hsmall'⟩ := portText_apply_iff hr call
      exact ⟨htext', hsmall'.mpr hcall⟩
    · rintro r call - hr hcall rfl hagree
      obtain ⟨htext', hsmall'⟩ := portText_apply_iff hr call
      exact hcall (hsmall'.mp ((portsAgree_iff_lt htext').mp hagree))
  · -- already the constructor stores a port that is too large
    apply iff_of_false
    · intro h
      exact hstart (hsmall.mp ((portsAgree_iff_lt htext).mp h.head))
    · exact fun h => hstart h.1

end Ports

/-- A URL with five digits too large for 16 bits. -/
theorem portsAgree_large_port :
    letI := Toolbox.reference
    letI := BoostRegex.reference
    let r := BaseRequest.Construction.make (.ofUrl "http://h:70000/".toList)
    r.getPortStr = "70000".toList ∧ r.getPort = .ok 4464 ∧ ¬ PortsAgree r := by
  let := Toolbox.reference
  let := BoostRegex.reference
  have hport : (BaseRequest.Construction.make (.ofUrl "http://h:70000/".toList)).getPort =
      .ok 4464 := by decide
  refine ⟨by decide, hport, ?_⟩
  rintro ⟨port, hagree, hvalue⟩
  rw [hport] at hagree
  obtain rfl : 4464 = port := Except.ok.inj hagree
  exact absurd hvalue (by decide)

end Httb
