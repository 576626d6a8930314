import Httb.BaseRequest

/-!
# Parsing and Printing URLs

`base_request::parse_url`, the constructors that call it and `get_url`
(`src/request.cpp`). The pattern of `parse_url` is the value `urlParseRegex`; searching
with it is Boost's business and a parameter (`BoostRegex`) with the documented Perl
semantics.

## Main facts

- `UrlParts.first_renderTo`: on rendered parts the pattern's first match takes everything
  and captures exactly the parts
- `wellFormed_of_mem_successes`: whatever the pattern captures lies in the character
  classes of its groups
-/

namespace Httb

open Httb.Foundation

/-! ## The pattern -/

/-- `[a-zA-Z]` -/
def isProtoChar (c : Char) : Bool := c.isAlpha

/-- `[a-zA-Z0-9\.\-_]` -/
def isHostChar (c : Char) : Bool := c.isAlphanum || c == '.' || c == '-' || c == '_'

/-- `[0-9]` -/
def isPortChar (c : Char) : Bool := c.isDigit

/-- `[a-zA-Z0-9\/\+\-\.\%\/_]` -/
def isPathChar (c : Char) : Bool :=
  c.isAlphanum || c == '/' || c == '+' || c == '-' || c == '.' || c == '%' || c == '_'

/-- `[a-zA-Z0-9\-_\+\=\&\%\.]` -/
def isQueryChar (c : Char) : Bool :=
  c.isAlphanum || c == '-' || c == '_' || c == '+' || c == '=' || c == '&' || c == '%' || c == '.'

/-- `(\/[a-zA-Z0-9\/\+\-\.\%\/_]*)?` -/
def pathRegex : Regex Char :=
  .opt (.group 4 (.seq (.set (· == '/')) (.many isPathChar 0 none)))

/-- `\??([a-zA-Z0-9\-_\+\=\&\%\.]*)` -/
def queryRegex : Regex Char :=
  .seq (.opt (.set (· == '?'))) (.group 5 (.many isQueryChar 0 none))

/-- `urlParseRegex` of `parse_url`. -/
def urlParseRegex : Regex Char :=
  .seq (.group 1 (.many isProtoChar 1 none)) <|
  .seq (.set (· == ':')) <| .seq (.set (· == '/')) <| .seq (.set (· == '/')) <|
  .seq (.opt (.group 2 (.many isHostChar 1 none))) <|
  .seq (.opt (.set (· == ':'))) <|
  .seq (.opt (.group 3 (.many isPortChar 1 (some 5)))) <|
  .seq pathRegex queryRegex

/-- `boost::regex_search`: the leftmost match, greedy with backtracking. -/
class BoostRegex where
  regexSearch : Regex Char → Str → Option (Regex.Success Char)
  regexSearch_eq : ∀ re s, regexSearch re s = re.search s

/-- A search that does what the documentation says. -/
@[reducible] def BoostRegex.reference : BoostRegex where
  regexSearch re s := re.search s
  regexSearch_eq _ _ := rfl

/-- `mreg`: the whole match and the captured groups; without a match, nothing. -/
def mreg [BoostRegex] (re : Regex Char) (source : Str) : List Str :=
  match BoostRegex.regexSearch re source with
  | none => []
  | some m => (List.range (re.groupCount + 1)).map fun i =>
      if i = 0 then m.consumed else m.capture i

namespace BaseRequest

/-- The constructors of a request. -/
inductive Construction where
  | default
  | ofUrl (url : Str)
  | ofUrlPort (url : Str) (port : UInt16)
  | ofUrlMethod (url : Str) (method : Verb)

variable [Toolbox] [BoostRegex]

/-! ## parse_url and the constructors -/

/-- The branch of `parse_url` on the protocol. -/
def setScheme (r : BaseRequest) : BaseRequest :=
  if equalsIcase r.proto "https".toList then { r with port := "443".toList, ssl := true }
  else if equalsIcase r.proto "ftp".toList then { r with port := "20".toList, ssl := false }
  -- under any other protocol, `http` included, port and ssl stay what they were
  else r

/-- The branch of `parse_url` on the captured port. -/
def setCapturedPort (r : BaseRequest) (port : Str) : BaseRequest :=
  if !port.isEmpty then { r with port := port } else r

/-- The branch of `parse_url` on the captured query. -/
def appendParams (r : BaseRequest) (paramsString : Str) : BaseRequest :=
  if !paramsString.isEmpty then
    let kvs := split paramsString '&'
    -- `push_back`: parameters that are there already stay
    { r with params := r.params ++ kvs.map fun item => splitPair item '=' }
  else r

/-- `parse_url`. -/
def parseUrl (r : BaseRequest) (url : Str) : BaseRequest :=
  let res := mreg urlParseRegex url
  if !matchesPattern urlParseRegex url then r
  else
    let r := { r with proto := res.getD 1 [], host := res.getD 2 [] }
    let port := res.getD 3 []
    let r := { r with path := res.getD 4 [] }
    let paramsString := res.getD 5 []
    ((r.setScheme).setCapturedPort port).appendParams paramsString

/-- `base_request(url)`. -/
def ofUrl (url : Str) : BaseRequest := ({} : BaseRequest).parseUrl url

/-- `base_request(url, port)`. -/
def ofUrlPort (url : Str) (port : UInt16) : BaseRequest :=
  { port := decimal port.toNat : BaseRequest }.parseUrl url

/-- `base_request(url, method)`. -/
def ofUrlMethod (url : Str) (method : Verb) : BaseRequest :=
  { method := method : BaseRequest }.parseUrl url

/-- The request that a constructor makes. -/
def Construction.make : Construction → BaseRequest
  | .default => {}
  | .ofUrl url => BaseRequest.ofUrl url
  | .ofUrlPort url port => BaseRequest.ofUrlPort url port
  | .ofUrlMethod url method => BaseRequest.ofUrlMethod url method

/-! ## get_url -/

/-- `get_url`. -/
def getUrl (r : BaseRequest) : Str :=
  r.proto ++ "://".toList ++ r.host ++
    -- neither port is printed, whatever the protocol is
    (if r.port ≠ "80".toList ∧ r.port ≠ "443".toList then ":".toList ++ r.port else []) ++
    (if !r.path.isEmpty then r.path else "/".toList) ++
    (if r.hasAnyQuery then r.getQueryString else [])

end BaseRequest

/-! ## Rendered URLs -/

/-- The parts of a URL, as the pattern's groups capture them. -/
structure UrlParts where
  proto : Str
  host : Str
  port : Str
  path : Str
  query : Str

namespace UrlParts

/-- The parts lie in the character classes of the pattern's groups. -/
structure WellFormed (u : UrlParts) : Prop where
  proto_ne_nil : u.proto ≠ []
  proto_class : ∀ c ∈ u.proto, isProtoChar c = true
  host_class : ∀ c ∈ u.host, isHostChar c = true
  port_class : ∀ c ∈ u.port, isPortChar c = true
  port_length : u.port.length ≤ 5
  path_class : u.path = [] ∨ ∃ p, u.path = '/' :: p ∧ ∀ c ∈ p, isPathChar c = true
  query_class : ∀ c ∈ u.query, isQueryChar c = true

/-- `?query`, or nothing when there is no query. -/
def renderQuery (query : Str) : Str := if query.isEmpty then [] else '?' :: query

/-- `:port`, or nothing when there is no port. -/
def renderPort (port : Str) : Str := if port.isEmpty then [] else ':' :: port

/-- `proto://host:port/path?query`, without the separators of absent parts. -/
def render (u : UrlParts) : Str :=
  u.proto ++ "://".toList ++ (u.host ++ (renderPort u.port ++ (u.path ++ renderQuery u.query)))

/-- The groups that take part in matching a rendered URL. -/
def groups (u : UrlParts) : List (Nat × Str) :=
  (1, u.proto) :: (Regex.optionalGroup 2 u.host ++ (Regex.optionalGroup 3 u.port ++
    (Regex.optionalGroup 4 u.path ++ [(5, u.query)])))

/-- What a list of captured groups says about the parts. -/
def ofCaptures (m : Regex.Success Char) : UrlParts :=
  ⟨m.capture 1, m.capture 2, m.capture 3, m.capture 4, m.capture 5⟩

theorem ofCaptures_groups (u : UrlParts) (consumed rest : Str) :
    ofCaptures ⟨consumed, rest, u.groups⟩ = u := by
  obtain ⟨proto, host, port, path, query⟩ := u
  -- a group that took no part is not found further on
  have h₃ (xs : Str) : (Regex.optionalGroup 4 xs ++ [(5, query)]).lookup 3 = none := by
    rw [Regex.lookup_optionalGroup_append_of_ne (by decide)]
    rfl
  have h₂ (xs ys : Str) : (Regex.optionalGroup 3 xs ++
      (Regex.optionalGroup 4 ys ++ [(5, query)])).lookup 2 = none := by
    rw [Regex.lookup_optionalGroup_append_of_ne (by decide),
      Regex.lookup_optionalGroup_append_of_ne (by decide)]
    rfl
  have hskip (j : Nat) (hj : j ≠ 1) (gs : List (Nat × Str)) :
      ((1, proto) :: gs).lookup j = gs.lookup j := by
    rw [List.lookup_cons, beq_eq_false_iff_ne.mpr hj]
  simp only [ofCaptures, groups, Regex.Success.capture, UrlParts.mk.injEq]
  refine ⟨by simp, ?host, ?port, ?path, ?query⟩
  case host =>
    rw [hskip 2 (by decide)]
    exact Regex.lookup_optionalGroup_append_self (h₂ port path)
  case port =>
    rw [hskip 3 (by decide), Regex.lookup_optionalGroup_append_of_ne (by decide)]
    exact Regex.lookup_optionalGroup_append_self (h₃ path)
  case path =>
    rw [hskip 4 (by decide), Regex.lookup_optionalGroup_append_of_ne (by decide),
      Regex.lookup_optionalGroup_append_of_ne (by decide)]
    exact Regex.lookup_optionalGroup_append_self rfl
  case query =>
    rw [hskip 5 (by decide), Regex.lookup_optionalGroup_append_of_ne (by decide),
      Regex.lookup_optionalGroup_append_of_ne (by decide),
      Regex.lookup_optionalGroup_append_of_ne (by decide)]
    rfl

/-! ### The first match on a rendered URL -/

/-- What follows the path: a question mark with a text of the query class, or nothing. -/
structure QueryTail (query tail : Str) : Prop where
  query_class : ∀ c ∈ query, isQueryChar c = true
  tail_eq : tail = '?' :: query ∨ query = [] ∧ tail = []

theorem queryTail_renderQuery {query : Str} (h : ∀ c ∈ query, isQueryChar c = true) :
    QueryTail query (renderQuery query) where
  query_class := h
  tail_eq := by
    rw [renderQuery]
    cases query with
    | nil => exact .inr ⟨rfl, rfl⟩
    | cons c query => exact .inl rfl

theorem QueryTail.head {query tail : Str} (h : QueryTail query tail) {c : Char} {t : Str}
    (heq : tail = c :: t) : c = '?' := by
  rcases h.tail_eq with rfl | ⟨_, rfl⟩
  · exact (List.cons.inj heq).1.symm
  · cases heq

theorem head_path_tail {u : UrlParts} (h : u.WellFormed) {query tail : Str}
    (htail : QueryTail query tail) {c : Char} {t : Str} (heq : u.path ++ tail = c :: t) :
    c = '/' ∨ c = '?' := by
  rcases h.path_class with hp | ⟨p, hp, _⟩
  · rw [hp, List.nil_append] at heq
    exact .inr (htail.head heq)
  · rw [hp, List.cons_append] at heq
    exact .inl (List.cons.inj heq).1.symm

theorem head_port_path_tail {u : UrlParts} (h : u.WellFormed) {query tail : Str}
    (htail : QueryTail query tail) {c : Char} {t : Str}
    (heq : renderPort u.port ++ (u.path ++ tail) = c :: t) :
    c = ':' ∨ c = '/' ∨ c = '?' := by
  rw [renderPort] at heq
  split at heq
  · exact .inr (head_path_tail h htail heq)
  · exact .inl (List.cons.inj heq).1.symm

theorem first_queryRegex {query tail : Str} (h : QueryTail query tail) :
    queryRegex.first tail = some ⟨tail, [], [(5, query)]⟩ := by
  have hquery : (Regex.group 5 (.many isQueryChar 0 none)).first query =
      some ⟨query, [], [(5, query)]⟩ := by
    have hmany : (Regex.many isQueryChar 0 none).first (query ++ []) = some ⟨query, [], []⟩ :=
      Regex.first_many_append h.query_class (by simp) (Nat.zero_le _) (by simp)
    rw [List.append_nil] at hmany
    exact Regex.first_group hmany
  rcases h.tail_eq with rfl | ⟨rfl, rfl⟩
  · have hmark : (Regex.opt (.set (· == '?'))).first ('?' :: query) = some ⟨['?'], query, []⟩ :=
      Regex.first_opt_of_first (Regex.first_set rfl _)
    exact Regex.first_seq hmark hquery
  · have hskip : (Regex.opt (.set (· == '?'))).first ([] : Str) = some ⟨[], [], []⟩ :=
      Regex.first_opt_of_fail rfl
    exact Regex.first_seq hskip hquery

theorem first_pathRegex {path ys : Str}
    (h : path = [] ∨ ∃ p, path = '/' :: p ∧ ∀ c ∈ p, isPathChar c = true)
    (hys : ∀ c t, ys = c :: t → c = '?') :
    pathRegex.first (path ++ ys) = some ⟨path, ys, Regex.optionalGroup 4 path⟩ := by
  rcases h with rfl | ⟨p, rfl, hp⟩
  · refine Regex.first_opt_of_fail
      (Regex.successes_group_of_fail (Regex.successes_seq_of_fail
        (Regex.successes_set_of_fail fun c t heq => ?_)))
    rw [hys c t heq]
    rfl
  · have hrun : (Regex.many isPathChar 0 none).first (p ++ ys) = some ⟨p, ys, []⟩ :=
      Regex.first_many_append hp (fun c t heq => by rw [hys c t heq]; rfl) (Nat.zero_le _)
        (by simp)
    have hslash : (Regex.set (· == '/')).first ('/' :: (p ++ ys)) =
        some ⟨['/'], p ++ ys, []⟩ := Regex.first_set rfl _
    exact Regex.first_opt_of_first (Regex.first_group (Regex.first_seq hslash hrun))

/-- The parts with a given text in the place of the query. -/
def renderTo (u : UrlParts) (tail : Str) : Str :=
  u.proto ++ "://".toList ++ (u.host ++ (renderPort u.port ++ (u.path ++ tail)))

/-- On rendered parts the pattern's first match takes everything, and its groups capture
the parts. -/
theorem first_renderTo {u : UrlParts} (h : u.WellFormed) {tail : Str}
    (htail : QueryTail u.query tail) :
    urlParseRegex.first (u.renderTo tail) = some ⟨u.renderTo tail, [], u.groups⟩ := by
  -- from the end of the pattern to its start: every part stops where the next one begins
  have hquery := first_queryRegex htail
  have hpath := Regex.first_seq (first_pathRegex h.path_class fun c t => htail.head) hquery
  have hportRun : (Regex.opt (.group 3 (.many isPortChar 1 (some 5)))).first
        (u.port ++ (u.path ++ tail)) =
      some ⟨u.port, u.path ++ tail, Regex.optionalGroup 3 u.port⟩ :=
    Regex.first_opt_group_many 3 h.port_class
      (fun c t heq => by rcases head_path_tail h htail heq with rfl | rfl <;> rfl)
      (fun n hn => by cases hn; exact h.port_length)
  have hport := Regex.first_seq hportRun hpath
  have hcolon : (Regex.seq (.opt (.set (· == ':'))) <|
      .seq (.opt (.group 3 (.many isPortChar 1 (some 5)))) <|
      .seq pathRegex queryRegex).first
        (renderPort u.port ++ (u.path ++ tail)) =
      some ⟨renderPort u.port ++ (u.path ++ tail), [],
        Regex.optionalGroup 3 u.port ++ (Regex.optionalGroup 4 u.path ++ [(5, u.query)])⟩ := by
    rw [renderPort]
    split
    · -- no port, no colon: the optional colon finds the path, the query or nothing
      rename_i hempty
      rw [List.isEmpty_iff] at hempty
      rw [hempty] at hport ⊢
      have hskip : (Regex.opt (.set (· == ':'))).first (u.path ++ tail) =
          some ⟨[], u.path ++ tail, []⟩ :=
        Regex.first_opt_of_fail (Regex.successes_set_of_fail fun c t heq => by
          rcases head_path_tail h htail heq with rfl | rfl <;> rfl)
      exact Regex.first_seq hskip hport
    · exact Regex.first_seq (Regex.first_opt_of_first (Regex.first_set rfl _)) hport
  have hhostRun : (Regex.opt (.group 2 (.many isHostChar 1 none))).first
        (u.host ++ (renderPort u.port ++ (u.path ++ tail))) =
      some ⟨u.host, renderPort u.port ++ (u.path ++ tail), Regex.optionalGroup 2 u.host⟩ :=
    Regex.first_opt_group_many 2 h.host_class
      (fun c t heq => by rcases head_port_path_tail h htail heq with rfl | rfl | rfl <;> rfl)
      (by simp)
  have hhost := Regex.first_seq hhostRun hcolon
  have hsep := Regex.first_seq (Regex.first_set (p := (· == ':')) (c := ':') rfl _)
    (Regex.first_seq (Regex.first_set (p := (· == '/')) (c := '/') rfl _)
      (Regex.first_seq (Regex.first_set (p := (· == '/')) (c := '/') rfl _) hhost))
  have hproto : (Regex.group 1 (.many isProtoChar 1 none)).first (u.renderTo tail) =
      some ⟨u.proto, "://".toList ++
        (u.host ++ (renderPort u.port ++ (u.path ++ tail))), [(1, u.proto)]⟩ := by
    rw [renderTo, List.append_assoc]
    refine Regex.first_group (Regex.first_many_append h.proto_class ?_ ?_ (by simp))
    · -- a colon is no letter
      intro c t heq
      obtain rfl : ':' = c := (List.cons.inj heq).1
      rfl
    · exact List.length_pos_iff.mpr h.proto_ne_nil
  have hall := Regex.first_seq hproto hsep
  rw [urlParseRegex, hall]
  simp only [Regex.Success.append, renderTo, groups, Option.some.injEq, Regex.Success.mk.injEq,
    true_and]
  exact ⟨by simp, rfl⟩

/-! ### What the groups can capture -/

private theorem groups_of_mem_opt_set {p : Char → Bool} {s : Str} {m : Regex.Success Char}
    (h : m ∈ (Regex.opt (.set p)).successes s) : m.groups = [] := by
  rw [Regex.mem_successes_opt, Regex.mem_successes_set] at h
  rcases h with ⟨c, t, _, _, rfl⟩ | rfl <;> rfl

private theorem groups_of_mem_set {p : Char → Bool} {s : Str} {m : Regex.Success Char}
    (h : m ∈ (Regex.set p).successes s) : m.groups = [] := by
  obtain ⟨c, t, _, _, rfl⟩ := Regex.mem_successes_set.mp h
  rfl

private theorem mem_successes_pathRegex {s : Str} {m : Regex.Success Char}
    (h : m ∈ pathRegex.successes s) :
    ∃ path, (path = [] ∨ ∃ p, path = '/' :: p ∧ ∀ c ∈ p, isPathChar c = true) ∧
      m.groups = Regex.optionalGroup 4 path := by
  rw [pathRegex, Regex.mem_successes_opt, Regex.mem_successes_group] at h
  rcases h with ⟨m₁, hm₁, rfl⟩ | rfl
  · obtain ⟨m₂, hm₂, m₃, hm₃, rfl⟩ := Regex.mem_successes_seq.mp hm₁
    obtain ⟨c, t, _, hc, rfl⟩ := Regex.mem_successes_set.mp hm₂
    obtain ⟨p, ys, _, hp, _, _, rfl⟩ := Regex.mem_successes_many.mp hm₃
    obtain rfl : c = '/' := by simpa using hc
    exact ⟨'/' :: p, .inr ⟨p, rfl, hp⟩, rfl⟩
  · exact ⟨[], .inl rfl, rfl⟩

/-- Every match of the pattern captures well-formed parts. -/
theorem wellFormed_of_mem_successes {s : Str} {m : Regex.Success Char}
    (h : m ∈ urlParseRegex.successes s) : ∃ u : UrlParts, u.WellFormed ∧ m.groups = u.groups := by
  rw [urlParseRegex] at h
  -- take the match apart along the pattern
  obtain ⟨_, hproto, _, h₁, rfl⟩ := Regex.mem_successes_seq.mp h
  obtain ⟨_, hsep₁, _, h₂, rfl⟩ := Regex.mem_successes_seq.mp h₁
  obtain ⟨_, hsep₂, _, h₃, rfl⟩ := Regex.mem_successes_seq.mp h₂
  obtain ⟨_, hsep₃, _, h₄, rfl⟩ := Regex.mem_successes_seq.mp h₃
  obtain ⟨_, hhost, _, h₅, rfl⟩ := Regex.mem_successes_seq.mp h₄
  obtain ⟨_, hcolon, _, h₆, rfl⟩ := Regex.mem_successes_seq.mp h₅
  obtain ⟨_, hport, _, h₇, rfl⟩ := Regex.mem_successes_seq.mp h₆
  obtain ⟨_, hpath, _, h₈, rfl⟩ := Regex.mem_successes_seq.mp h₇
  rw [queryRegex] at h₈
  obtain ⟨_, hmark, _, hquery, rfl⟩ := Regex.mem_successes_seq.mp h₈
  -- and see what each group captured
  obtain ⟨_, hrun₁, rfl⟩ := Regex.mem_successes_group.mp hproto
  obtain ⟨proto, _, _, hprotoAll, hprotoLen, _, rfl⟩ := Regex.mem_successes_many.mp hrun₁
  obtain ⟨host, _, hhostAll, _, rfl⟩ := Regex.mem_successes_opt_group_many hhost
  obtain ⟨port, _, hportAll, hportLen, rfl⟩ := Regex.mem_successes_opt_group_many hport
  obtain ⟨path, hpathClass, hpathGroups⟩ := mem_successes_pathRegex hpath
  obtain ⟨_, hrun₅, rfl⟩ := Regex.mem_successes_group.mp hquery
  obtain ⟨query, _, _, hqueryAll, _, _, rfl⟩ := Regex.mem_successes_many.mp hrun₅
  refine ⟨⟨proto, host, port, path, query⟩, ?_, ?_⟩
  · exact {
      proto_ne_nil := List.length_pos_iff.mp hprotoLen
      proto_class := hprotoAll
      host_class := hhostAll
      port_class := hportAll
      port_length := hportLen 5 rfl
      path_class := hpathClass
      query_class := hqueryAll }
  · simp [Regex.Success.append, groups, groups_of_mem_set hsep₁, groups_of_mem_set hsep₂,
      groups_of_mem_set hsep₃, groups_of_mem_opt_set hcolon, groups_of_mem_opt_set hmark,
      hpathGroups]

end UrlParts

/-! ## What parse_url reads off a URL -/

/-- The texts that `parse_url` takes from the captured groups. -/
def urlParts [BoostRegex] (url : Str) : UrlParts :=
  let res := mreg urlParseRegex url
  ⟨res.getD 1 [], res.getD 2 [], res.getD 3 [], res.getD 4 [], res.getD 5 []⟩

theorem urlParts_of_search [BoostRegex] {url : Str} {m : Regex.Success Char}
    (h : urlParseRegex.search url = some m) : urlParts url = UrlParts.ofCaptures m := by
  have hres : mreg urlParseRegex url =
      [m.consumed, m.capture 1, m.capture 2, m.capture 3, m.capture 4, m.capture 5] := by
    rw [mreg, BoostRegex.regexSearch_eq, h]
    rfl
  rw [urlParts, hres]
  rfl

section Matching

variable [Toolbox] [BoostRegex]

/-- What `parse_url` takes from a URL that it accepts lies in the pattern's classes. -/
theorem urlParts_wellFormed {url : Str} (h : matchesPattern urlParseRegex url = true) :
    (urlParts url).WellFormed := by
  -- the search may report another match than the one that takes the whole URL
  obtain ⟨m, hm, _⟩ := (Toolbox.matchesPattern_iff _ _).mp h
  obtain ⟨first, ms, hfirst⟩ := List.exists_cons_of_ne_nil (List.ne_nil_of_mem hm)
  have hsearch : urlParseRegex.search url = some first :=
    Regex.search_of_first (by rw [Regex.first, hfirst, List.head?_cons])
  obtain ⟨u, hu, hgroups⟩ :=
    UrlParts.wellFormed_of_mem_successes (hfirst ▸ List.mem_cons_self : first ∈ _)
  have hparts : UrlParts.ofCaptures first = u := by
    obtain ⟨consumed, rest, groups⟩ := first
    obtain rfl : groups = u.groups := hgroups
    exact u.ofCaptures_groups consumed rest
  rw [urlParts_of_search hsearch, hparts]
  exact hu

/-- Rendered parts are accepted, and read back. -/
theorem urlParts_renderTo {u : UrlParts} (h : u.WellFormed) {tail : Str}
    (htail : UrlParts.QueryTail u.query tail) :
    matchesPattern urlParseRegex (u.renderTo tail) = true ∧ urlParts (u.renderTo tail) = u := by
  have hfirst := UrlParts.first_renderTo h htail
  constructor
  · rw [Toolbox.matchesPattern_iff]
    exact ⟨_, List.mem_of_mem_head? hfirst, rfl⟩
  · rw [urlParts_of_search (Regex.search_of_first hfirst)]
    exact u.ofCaptures_groups _ _

/-- A rendered URL is accepted, and its parts are read back. -/
theorem urlParts_render {u : UrlParts} (h : u.WellFormed) :
    matchesPattern urlParseRegex u.render = true ∧ urlParts u.render = u :=
  urlParts_renderTo h (UrlParts.queryTail_renderQuery h.query_class)

/-- The protocol is `https` in any case. -/
def isHttps (proto : Str) : Bool := equalsIcase proto "https".toList

/-- The protocol is `ftp` in any case. -/
def isFtp (proto : Str) : Bool := equalsIcase proto "ftp".toList

/-- The port that goes with a protocol when the URL names none. -/
def defaultPort (proto : Str) : Str :=
  if isHttps proto then "443".toList else if isFtp proto then "20".toList else "80".toList

/-- The port a URL stands for: the one it names, or else its protocol's. -/
def portOfUrl (url : Str) : Str :=
  if !(urlParts url).port.isEmpty then (urlParts url).port else defaultPort (urlParts url).proto

/-- The parameters in a query text. -/
def queryParams (query : Str) : KvVector :=
  if query.isEmpty then [] else (split query '&').map fun item => splitPair item '='

omit [BoostRegex] in
/-- The parameters of a query text: its pieces at the separators, each cut at its first `=`.
A text that is left out, or empty, has no pieces. -/
theorem queryParams_eq_pieces (text : Str) :
    queryParams text = if text = [] then [] else (text.splitOn '&').map (cutFirst '=') := by
  rw [queryParams, Toolbox.split_eq]
  cases text with
  | nil => rfl
  | cons c text =>
    rw [if_neg (by simp), if_neg (by simp)]
    exact List.map_congr_left fun item _ => Toolbox.splitPair_eq item '='

namespace BaseRequest

omit [BoostRegex] in
theorem setScheme_eq (r : BaseRequest) :
    r.setScheme = { r with
      ssl := if isHttps r.proto then true else if isFtp r.proto then false else r.ssl
      port := if isHttps r.proto then "443".toList
        else if isFtp r.proto then "20".toList else r.port } := by
  rw [setScheme, ← isHttps, ← isFtp]
  cases isHttps r.proto
  · cases isFtp r.proto <;> rfl
  · rfl

omit [Toolbox] [BoostRegex] in
theorem setCapturedPort_eq (r : BaseRequest) (port : Str) :
    r.setCapturedPort port = { r with port := if !port.isEmpty then port else r.port } := by
  rw [setCapturedPort]
  split <;> rfl

omit [BoostRegex] in
theorem appendParams_eq (r : BaseRequest) (paramsString : Str) :
    r.appendParams paramsString = { r with params := r.params ++ queryParams paramsString } := by
  rw [appendParams, queryParams]
  cases paramsString.isEmpty <;> simp

theorem parseUrl_of_not_matches {url : Str} (h : matchesPattern urlParseRegex url = false)
    (r : BaseRequest) : r.parseUrl url = r := by
  simp [parseUrl, h]

/-- Everything `parse_url` does to a request: protocol, host and path are replaced; the ssl
flag and the port are replaced only by a URL that says something about them; the parameters
are appended. -/
theorem parseUrl_of_matches {url : Str} (h : matchesPattern urlParseRegex url = true)
    (r : BaseRequest) :
    r.parseUrl url =
      { r with
        proto := (urlParts url).proto
        host := (urlParts url).host
        path := (urlParts url).path
        ssl :=
          if isHttps (urlParts url).proto then true
          else if isFtp (urlParts url).proto then false else r.ssl
        port :=
          if !(urlParts url).port.isEmpty then (urlParts url).port
          else if isHttps (urlParts url).proto then "443".toList
          else if isFtp (urlParts url).proto then "20".toList else r.port
        params := r.params ++ queryParams (urlParts url).query } := by
  rw [parseUrl, h, appendParams_eq, setCapturedPort_eq, setScheme_eq]
  rfl

/-- What a fresh request takes from a URL. -/
theorem ofUrl_of_matches {url : Str} (h : matchesPattern urlParseRegex url = true) :
    ofUrl url =
      { proto := (urlParts url).proto
        host := (urlParts url).host
        path := (urlParts url).path
        ssl := isHttps (urlParts url).proto
        port := portOfUrl url
        params := queryParams (urlParts url).query } := by
  rw [ofUrl, parseUrl_of_matches h, portOfUrl, defaultPort, List.nil_append]
  cases isHttps (urlParts url).proto <;> simp

end BaseRequest

end Matching

/-! ## The fields a URL determines -/

/-- The fields that a URL determines. -/
structure UrlFields where
  proto : Str
  host : Str
  port : Str
  ssl : Bool
  path : Str
  params : KvVector
  deriving DecidableEq

/-- The URL fields of a request. -/
def BaseRequest.urlFields (r : BaseRequest) : UrlFields :=
  ⟨r.proto, r.host, r.port, r.ssl, r.path, r.params⟩

end Httb
