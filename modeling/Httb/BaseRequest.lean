import Httb.IoContainer

/-!
# The Request and Its Query Parameters

`httb::base_request` (`src/request.cpp`): the fields of a request, the operations on its
parameter list and its path. Parsing and printing of URLs is in `Httb.Url`.

A loop over `m_params` that erases while it iterates is a recursion over the remaining
suffix with the counters of the source as arguments. Counters are natural numbers: a
vector never holds as many entries as its `size_t` can count.
-/

namespace Httb

/-- `boost::beast::http::verb`, which `base_request::method` is an alias of. -/
inductive Verb where
  | unknown | delete_ | get | head | post | put | connect | options | trace
  | copy | lock | mkcol | move | propfind | proppatch | search | unlock | bind | rebind
  | unbind | acl | report | mkactivity | checkout | merge | msearch | notify | subscribe
  | unsubscribe | patch | purge | mkcalendar | link | unlink
  deriving DecidableEq

/-- `httb::base_request`; the defaults are those of its constructor without arguments. -/
structure BaseRequest extends IoContainer where
  ssl : Bool := false
  method : Verb := .get
  proto : Str := "http".toList
  host : Str := []
  port : Str := "80".toList
  path : Str := "/".toList
  params : KvVector := []
  deriving DecidableEq

/-- The comparison that the query functions choose by their flag. -/
def cmp [Toolbox] (icase : Bool) (lhs rhs : Str) : Bool :=
  if icase then equalsIcase lhs rhs else lhs == rhs

namespace BaseRequest

variable [Toolbox]

/-! ## Methods and plain fields -/

/-- `method_from_string`. -/
def methodFromString (methodName : Str) : Verb :=
  if equalsIcase methodName "POST".toList then .post
  else if equalsIcase methodName "PUT".toList then .put
  else if equalsIcase methodName "DELETE".toList then .delete_
  else if equalsIcase methodName "HEAD".toList then .head
  else .get

/-- `method_to_string`. -/
def methodToString : Verb → Str
  | .post => "POST".toList
  | .put => "PUT".toList
  | .delete_ => "DELETE".toList
  | .head => "HEAD".toList
  | .get => "GET".toList
  | _ => "UnsupportedMethod".toList

/-- `set_method`. -/
def setMethod (r : BaseRequest) (method : Verb) : BaseRequest := { r with method }

/-- `get_method_str`. -/
def getMethodStr (r : BaseRequest) : Str := methodToString r.method

/-- Only five methods are read back from their names; the others become `GET`. -/
theorem methodFromString_getMethodStr_iff (r : BaseRequest) :
    methodFromString r.getMethodStr = r.method ↔
      r.method ∈ [Verb.get, .post, .put, .delete_, .head] := by
  simp only [getMethodStr, methodFromString, equalsIcase_eq_decide, Toolbox.toLowerCase_eq]
  cases r.method <;> decide

/-- `use_ssl`. -/
def useSsl (r : BaseRequest) (use : Bool) : BaseRequest := { r with ssl := use }

/-- `set_host`. -/
def setHost (r : BaseRequest) (hostname : Str) : BaseRequest := { r with host := hostname }

/-- `set_port`. -/
def setPort (r : BaseRequest) (portNumber : UInt16) : BaseRequest :=
  { r with port := decimal portNumber.toNat }

/-- `get_port`. The cast keeps the last 16 bits. -/
def getPort (r : BaseRequest) : Except StoiError UInt16 := do
  let port ← stoi r.port
  return port.toUInt32.toUInt16

/-- `get_port_str`. -/
def getPortStr (r : BaseRequest) : Str := r.port

/-- `set_proto_name`. -/
def setProtoName (r : BaseRequest) (protocolName : Str) : BaseRequest :=
  { r with proto := protocolName }

/-! ## The path -/

/-- `get_path`. -/
def getPath (r : BaseRequest) : Str := if r.path.isEmpty then "/".toList else r.path

/-- `set_path`. What its first branch stores is overwritten by the second one. -/
def setPath (r : BaseRequest) (path : Str) : BaseRequest :=
  let r := if r.path.length = 0 then { r with path := "/".toList }
    else if r.path.head? ≠ some '/' then { r with path := '/' :: r.path } else r
  -- a path of one character is stored as it is
  if path.length > 1 ∧ path.head? ≠ some '/' then { r with path := '/' :: path }
  else { r with path := path }

/-- `add_path`. -/
def addPath (r : BaseRequest) (path : Str) : BaseRequest :=
  if path.length = 0 ∨ path.length = 1 ∧ path.head? = some '/' then r
  else
    let r := if r.path.length = 0 then { r with path := "/".toList } else r
    if path.head? = some '/' then
      if r.path.getLast? = some '/' then { r with path := r.path ++ path.drop 1 }
      else { r with path := r.path ++ path }
    else
      if r.path.getLast? ≠ some '/' then { r with path := r.path ++ '/' :: path }
      else { r with path := r.path ++ path }

/-! ## Query parameters -/

/-- `add_query(kv&&)`. -/
def addQuery (r : BaseRequest) (keyValue : Kv) : BaseRequest :=
  { r with params := r.params ++ [keyValue] }

/-- `add_query(kvd&&)`. -/
def addQueryInt (r : BaseRequest) (name : Str) (value : UInt64) : BaseRequest :=
  r.addQuery (name, decimal value.toNat)

/-- `has_query()`. -/
def hasAnyQuery (r : BaseRequest) : Bool := !r.params.isEmpty

/-- `has_query(key, icase)`. -/
def hasQuery (r : BaseRequest) (key : Str) (icase : Bool := true) : Bool :=
  r.params.any fun param => cmp icase param.1 key

/-- `get_query_value`. -/
def getQueryValue (r : BaseRequest) (key : Str) (icase : Bool := true) : Str :=
  match r.params.find? fun param => cmp icase param.1 key with
  | some param => param.2
  | none => []

/-- `find_query`. -/
def findQuery (r : BaseRequest) (key : Str) (icase : Bool := true) : Option Kv :=
  r.params.find? fun param => cmp icase param.1 key

/-- `set_query`. -/
def setQuery (r : BaseRequest) (key value : Str) (icase : Bool := true) : BaseRequest :=
  { r with params := r.params.map fun param =>
      if cmp icase param.1 key then (param.1, value) else param }

/-- The loop of `remove_query_array`, over what is left of the parameters: the entries it
keeps, and `erasedItems` at its end. -/
def removeQueryArrayLoop (key : Str) (index : UInt64) (icase : Bool) :
    (foundCount erasedItems : Nat) → KvVector → KvVector × Nat
  | _, erasedItems, [] => ([], erasedItems)
  | foundCount, erasedItems, it :: rest =>
      if cmp icase it.1 key then
        if foundCount = index.toNat then
          -- `erase` returns the iterator to the next entry; the match is counted all the same
          removeQueryArrayLoop key index icase (foundCount + 1) (erasedItems + 1) rest
        else
          let out := removeQueryArrayLoop key index icase (foundCount + 1) erasedItems rest
          (it :: out.1, out.2)
      else
        let out := removeQueryArrayLoop key index icase foundCount erasedItems rest
        (it :: out.1, out.2)

/-- `remove_query_array`. -/
def removeQueryArray (r : BaseRequest) (key : Str) (index : UInt64 := 0) (icase : Bool := true) :
    BaseRequest × Bool :=
  let out := removeQueryArrayLoop key index icase 0 0 r.params
  ({ r with params := out.1 }, decide (out.2 > 0))

/-- The loop of `remove_query`. Its counter is an `int`, whose overflow C++ leaves undefined:
in a run that has a meaning it counts. -/
def removeQueryLoop (key : Str) (icase : Bool) : (foundCount : Nat) → KvVector → KvVector × Nat
  | foundCount, [] => ([], foundCount)
  | foundCount, it :: rest =>
      -- `erase` returns the iterator to the next entry
      if cmp icase it.1 key then removeQueryLoop key icase (foundCount + 1) rest
      else
        let out := removeQueryLoop key icase foundCount rest
        (it :: out.1, out.2)

/-- `remove_query`. -/
def removeQuery (r : BaseRequest) (key : Str) (icase : Bool := true) : BaseRequest × Bool :=
  let out := removeQueryLoop key icase 0 r.params
  ({ r with params := out.1 }, decide (out.2 > 0))

/-- `clear_queries`. -/
def clearQueries (r : BaseRequest) : BaseRequest := { r with params := [] }

/-- `get_query_array`. -/
def getQueryArray (r : BaseRequest) (key : Str) (icase : Bool := true) : List Str :=
  (r.params.filter fun param => cmp icase param.1 key).map Prod.snd

/-- `get_query_string`. -/
def getQueryString (r : BaseRequest) : Str :=
  if !r.params.isEmpty then
    let enc := r.params.map fun p => p.1 ++ "=".toList ++ p.2
    "?".toList ++ glue "&".toList enc
  else []

/-- `get_path_with_query`. -/
def getPathWithQuery (r : BaseRequest) : Str := r.getPath ++ r.getQueryString

/-- `parse_query`. Reading the first character of an empty string gives its terminator. -/
def parseQuery (r : BaseRequest) (queryString : Str) : BaseRequest :=
  let query := if queryString.head? = some '?' then queryString.drop 1 else queryString
  let pairs := splitStr query "&".toList
  pairs.foldl (fun r param => r.addQuery (splitPairStr param "=".toList)) r

end BaseRequest

end Httb
