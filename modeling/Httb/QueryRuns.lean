import Httb.Foundation.Calls
import Httb.Foundation.Multimap
import Httb.QueryMultimap
import Httb.RequestComponents

/-!
# The Parameters of a Request as an Abstract Multimap

The parameters of a request are a vector of pairs that every function of `src/request.cpp`
scans from the start, comparing names one by one. To its callers the vector is a multimap:
a key has a list of values. This module says so for runs of calls. Whatever is called, in any
order, the request and the abstract multimap return the same, and at the end the request
holds the values of the multimap.

The comparison of names is a flag of each call. A run has one flag: with `icase` the key of a
name is the name in lower case.

## Main result

- `queryCalls_refine`
-/

namespace Httb

open Httb.Foundation

section Keys

variable [Toolbox]

/-- The key of a name. -/
def keyOf (icase : Bool) (name : Str) : Str := if icase then toLowerCase name else name

theorem sameKey_iff (icase : Bool) (name key : Str) :
    SameKey icase name key ↔ keyOf icase name = keyOf icase key := by
  unfold SameKey keyOf
  cases icase <;> exact Iff.rfl

theorem filedUnder_eq (icase : Bool) (key : Str) :
    filedUnder icase key = fun param => decide (keyOf icase param.1 = keyOf icase key) := by
  funext param
  exact decide_eq_decide.mpr (sameKey_iff icase param.1 key)

/-- The multimap that the parameters are. -/
def valuesOf (icase : Bool) (params : KvVector) : Multimap Str Str := filed (keyOf icase) params

theorem valuesOf_key (icase : Bool) (params : KvVector) (key : Str) :
    valuesOf icase params (keyOf icase key) = (matching icase key params).map Prod.snd := by
  rw [matching, filedUnder_eq]
  rfl

end Keys

variable [Toolbox] [BoostRegex]

/-- A call that reads or changes the parameters, or leaves them as they are. -/
inductive QueryCall where
  | addQuery (keyValue : Kv)
  | addQueryInt (name : Str) (value : UInt64)
  | parseQuery (queryString : Str)
  | parseUrl (url : Str)
  | setQuery (key value : Str)
  | removeQuery (key : Str)
  | removeQueryArray (key : Str) (index : UInt64)
  | clearQueries
  | hasQuery (key : Str)
  | getQueryValue (key : Str)
  | findQuery (key : Str)
  | getQueryArray (key : Str)
  | other (call : { call : RequestCall // call.touchesParams = false })

/-- What a call returns. -/
inductive QueryResult where
  | done
  | flag (b : Bool)
  | value (value : Str)
  /-- The value of the entry that was found. -/
  | found (value : Option Str)
  | values (values : List Str)
  deriving DecidableEq

namespace QueryCall

/-- What the code does. -/
def exec (icase : Bool) : QueryCall → BaseRequest → QueryResult × BaseRequest
  | .addQuery keyValue, r => (.done, r.addQuery keyValue)
  | .addQueryInt name value, r => (.done, r.addQueryInt name value)
  | .parseQuery queryString, r => (.done, r.parseQuery queryString)
  | .parseUrl url, r => (.done, r.parseUrl url)
  | .setQuery key value, r => (.done, r.setQuery key value icase)
  | .removeQuery key, r =>
    let out := r.removeQuery key icase
    (.flag out.2, out.1)
  | .removeQueryArray key index, r =>
    let out := r.removeQueryArray key index icase
    (.flag out.2, out.1)
  | .clearQueries, r => (.done, r.clearQueries)
  | .hasQuery key, r => (.flag (r.hasQuery key icase), r)
  | .getQueryValue key, r => (.value (r.getQueryValue key icase), r)
  | .findQuery key, r => (.found ((r.findQuery key icase).map Prod.snd), r)
  | .getQueryArray key, r => (.values (r.getQueryArray key icase), r)
  | .other call, r => (.done, call.1.apply r)

/-- What it means: the same call on a multimap. -/
def spec (icase : Bool) : QueryCall → Multimap Str Str → QueryResult × Multimap Str Str
  | .addQuery keyValue, m => (.done, m.addAll (valuesOf icase [keyValue]))
  | .addQueryInt name value, m => (.done, m.addAll (valuesOf icase [(name, decimal value.toNat)]))
  | .parseQuery queryString, m =>
    (.done, m.addAll (valuesOf icase (({} : BaseRequest).parseQuery queryString).params))
  | .parseUrl url, m =>
    (.done, m.addAll (valuesOf icase
      (((RequestCall.readUrl url).map fun u => queryParams u.query).getD [])))
  | .setQuery key value, m => (.done, m.setAll (keyOf icase key) value)
  | .removeQuery key, m =>
    (.flag (decide (m (keyOf icase key) ≠ [])), m.remove (keyOf icase key))
  | .removeQueryArray key index, m =>
    (.flag (decide (index.toNat < (m (keyOf icase key)).length)),
      m.removeAt (keyOf icase key) index.toNat)
  | .clearQueries, _ => (.done, Multimap.clear)
  | .hasQuery key, m => (.flag (decide (m (keyOf icase key) ≠ [])), m)
  | .getQueryValue key, m => (.value ((m (keyOf icase key)).head?.getD []), m)
  | .findQuery key, m => (.found (m (keyOf icase key)).head?, m)
  | .getQueryArray key, m => (.values (m (keyOf icase key)), m)
  | .other _, m => (.done, m)

/-- The multimap of a request. -/
def abstraction (icase : Bool) (r : BaseRequest) : Multimap Str Str := valuesOf icase r.params

/-- One call: the request returns what the multimap does, and stays a request for it. -/
theorem spec_abstraction (icase : Bool) (call : QueryCall) (r : BaseRequest) :
    call.spec icase (abstraction icase r) =
      ((call.exec icase r).1, abstraction icase (call.exec icase r).2) := by
  -- the calls that add entries append them, under every key
  have happend (params : KvVector) :
      (valuesOf icase r.params).addAll (valuesOf icase params) =
        valuesOf icase (r.params ++ params) := (filed_append _ _ _).symm
  have hvalues (key : Str) := valuesOf_key icase r.params key
  cases call with
  | addQuery keyValue => exact congrArg (Prod.mk _) (happend [keyValue])
  | addQueryInt name value => exact congrArg (Prod.mk _) (happend [(name, decimal value.toNat)])
  | parseQuery queryString =>
    rw [spec, exec, RequestCall.parseQuery_eq_append r queryString]
    exact congrArg (Prod.mk _) (happend _)
  | parseUrl url =>
    rw [spec, exec, RequestCall.parseUrl_eq_readUrl r url]
    exact congrArg (Prod.mk _) (happend _)
  | setQuery key value =>
    -- all entries of the key are overwritten; nothing is added for a key without entries
    have hset := filed_overwriteAll (keyOf icase) (keyOf icase key) value r.params
    rw [spec, exec, BaseRequest.setQuery_eq]
    simp only [sameKey_iff]
    exact congrArg (Prod.mk _) hset.symm
  | removeQuery key =>
    have hremove := filed_filter_not (keyOf icase) (keyOf icase key) r.params
    rw [spec, exec, BaseRequest.removeQuery_eq, abstraction, hvalues, filedUnder_eq]
    simp only [ne_eq, List.map_eq_nil_iff]
    exact congrArg (Prod.mk _) hremove.symm
  | removeQueryArray key index =>
    have herase := filed_eraseMatch (keyOf icase) (keyOf icase key) index.toNat r.params
    rw [spec, exec, BaseRequest.removeQueryArray_eq, abstraction, hvalues, filedUnder_eq,
      List.length_map]
    exact congrArg (Prod.mk _) herase.symm
  | clearQueries => rfl
  | hasQuery key =>
    rw [spec, exec, abstraction, hvalues]
    congr 2
    rw [Bool.eq_iff_iff, r.hasQuery_iff, decide_eq_true_iff, ne_eq, ne_eq, List.map_eq_nil_iff]
  | getQueryValue key =>
    rw [spec, exec, abstraction, hvalues, r.getQueryValue_eq, List.head?_map]
  | findQuery key => rw [spec, exec, abstraction, hvalues, r.findQuery_eq, List.head?_map]
  | getQueryArray key => rw [spec, exec, abstraction, hvalues, r.getQueryArray_eq]
  | other call =>
    -- the parameters are a component that this call does not touch
    have hpart : (call.1.apply r).params = r.params :=
      RequestCall.params.get_of_not_touches r call.2
    rw [spec, exec, abstraction, abstraction, hpart]

end QueryCall

/-- **The parameters are a multimap, to every run of calls.** In any order, with other calls on
the request between them, the calls on the request return what the same calls return on the
multimap, and the request ends with the values of the multimap under every key. -/
theorem queryCalls_refine (icase : Bool) (calls : List QueryCall) (r : BaseRequest) :
    runCalls (QueryCall.spec icase) calls (QueryCall.abstraction icase r) =
      ((runCalls (QueryCall.exec icase) calls r).1,
        QueryCall.abstraction icase (runCalls (QueryCall.exec icase) calls r).2) :=
  runCalls_refines (QueryCall.spec_abstraction icase) calls r

end Httb
