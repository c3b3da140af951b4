import MangaManager.Lib.Text

/-!
# URLs

`urlparse`, `urlunparse` and `urljoin` of `urllib.parse`, on lists of characters. The
checks of the host that raise are left out.
-/

namespace MangaManager.Lib

/-- `ParseResult`. -/
structure ParseResult where
  scheme : List Char := []
  netloc : List Char := []
  path : List Char := []
  params : List Char := []
  query : List Char := []
  fragment : List Char := []
  deriving DecidableEq

namespace Url

/-- `_WHATWG_C0_CONTROL_OR_SPACE`. -/
def isControlOrSpace (c : Char) : Bool := c.toNat ≤ 32

/-- `_UNSAFE_URL_BYTES_TO_REMOVE`. -/
def isUnsafe (c : Char) : Bool := c == '\t' || c == '\r' || c == '\n'

/-- `scheme_chars`. -/
def isSchemeChar (c : Char) : Bool := c.isAlphanum || c == '+' || c == '-' || c == '.'

/-- Where the authority ends. -/
def isDelimiter (c : Char) : Bool := c == '/' || c == '?' || c == '#'

/-- `uses_relative`. -/
def usesRelative : List String :=
  ["", "ftp", "http", "gopher", "nntp", "imap", "wais", "file", "https", "shttp", "mms",
    "prospero", "rtsp", "rtsps", "rtspu", "sftp", "svn", "svn+ssh", "ws", "wss"]

/-- `uses_netloc`. -/
def usesNetloc : List String :=
  ["", "ftp", "http", "gopher", "nntp", "telnet", "imap", "wais", "file", "mms", "https", "shttp",
    "snews", "prospero", "rtsp", "rtsps", "rtspu", "rsync", "svn", "svn+ssh", "sftp", "nfs", "git",
    "git+ssh", "ws", "wss", "itms-services"]

/-- `uses_params`. -/
def usesParams : List String :=
  ["", "ftp", "hdl", "prospero", "http", "imap", "https", "shttp", "rtsp", "rtsps", "rtspu", "sip",
    "sips", "mms", "sftp", "tel"]

/-- `text.split(c, 1)`, with nothing after `c` where there is none. -/
def cut (c : Char) (cs : List Char) : List Char × List Char :=
  (cs.takeWhile (· != c), (cs.dropWhile (· != c)).drop 1)

/-- The scheme, or the default one, and the rest. -/
def splitScheme (scheme : List Char) : List Char → List Char × List Char
  | [] => (scheme, [])
  | c :: cs =>
    let (head, rest) := cut ':' (c :: cs)
    if ':' ∈ c :: cs ∧ c.isAlpha = true ∧ head.all isSchemeChar = true then
      (head.map Char.toLower, rest)
    else (scheme, c :: cs)

/-- `_splitnetloc`, where there is one. -/
def splitNetloc : List Char → List Char × List Char
  | '/' :: '/' :: cs => (cs.takeWhile (!isDelimiter ·), cs.dropWhile (!isDelimiter ·))
  | cs => ([], cs)

/-- `_splitparams`: the parameters of the last segment. -/
def splitParams (cs : List Char) : List Char × List Char :=
  let last := cs.rtakeWhile (· != '/')
  let (segment, params) := cut ';' last
  (cs.rdropWhile (· != '/') ++ segment, params)

end Url

open Url

/-- `urlparse(url, scheme)`. -/
def urlparse (url : List Char) (scheme : List Char := []) : ParseResult :=
  let clean := (url.dropWhile isControlOrSpace).filter (!isUnsafe ·)
  let (scheme, rest) := splitScheme scheme clean
  let (netloc, rest) := splitNetloc rest
  let (rest, fragment) := cut '#' rest
  let (path, query) := cut '?' rest
  let (path, params) :=
    if String.ofList scheme ∈ usesParams then splitParams path else (path, [])
  { scheme, netloc, path, params, query, fragment }

/-- `urlunparse`. -/
def urlunparse (u : ParseResult) : List Char :=
  let path := if u.params = [] then u.path else u.path ++ ';' :: u.params
  let rooted := if path ≠ [] ∧ path.head? ≠ some '/' then '/' :: path else path
  let authority :=
    if u.netloc ≠ [] ∨ (u.scheme ≠ [] ∧ String.ofList u.scheme ∈ usesNetloc) ∨
        path.take 2 = ['/', '/'] then "//".toList ++ u.netloc ++ rooted
    else path
  (if u.scheme = [] then [] else u.scheme ++ [':']) ++ authority ++
    (if u.query = [] then [] else '?' :: u.query) ++
    if u.fragment = [] then [] else '#' :: u.fragment

/-- The loop over the segments, with those kept so far, the last one first. -/
def resolveSegments : List (List Char) → List (List Char) → List (List Char)
  | kept, [] => kept.reverse
  | kept, seg :: segments =>
    if seg = "..".toList then resolveSegments kept.tail segments
    else if seg = ".".toList then resolveSegments kept segments
    else resolveSegments (seg :: kept) segments

/-- `"/".join(resolved_path) or "/"`, the path of a reference against the path of the base. -/
def resolvePath (basePath path : List Char) : List Char :=
  let parts := basePath.splitOn '/'
  let parts := if parts.getLast? ≠ some [] then parts.dropLast else parts
  let segments :=
    if path.head? = some '/' then path.splitOn '/'
    else
      let all := parts ++ path.splitOn '/'
      all.take 1 ++ (all.tail.dropLast.filter (· ≠ [])) ++ all.tail.getLast?.toList
  let resolved := resolveSegments [] segments
  let resolved :=
    if segments.getLast? = some ".".toList ∨ segments.getLast? = some "..".toList then
      resolved ++ [[]]
    else resolved
  let joined := ['/'].intercalate resolved
  if joined = [] then ['/'] else joined

/-- `urljoin(base, url)`. -/
def urljoin (base url : List Char) : List Char :=
  if base = [] then url
  else if url = [] then base
  else
    let b := urlparse base
    let u := urlparse url b.scheme
    if u.scheme ≠ b.scheme ∨ String.ofList u.scheme ∉ usesRelative then url
    else if String.ofList u.scheme ∈ usesNetloc ∧ u.netloc ≠ [] then urlunparse u
    else
      let netloc := if String.ofList u.scheme ∈ usesNetloc then b.netloc else u.netloc
      if u.path = [] ∧ u.params = [] then
        urlunparse { u with
          netloc, path := b.path, params := b.params
          query := if u.query = [] then b.query else u.query }
      else urlunparse { u with netloc, path := resolvePath b.path u.path }

/-! ## URLs of plain paths -/

namespace Url

/-- A character that ends no path and is not removed. -/
def isPlain (c : Char) : Bool := !isUnsafe c && c != '?' && c != '#' && c != ';'

theorem isPlain_ne {c : Char} (h : isPlain c = true) :
    isUnsafe c = false ∧ c ≠ '?' ∧ c ≠ '#' ∧ c ≠ ';' := by
  simpa [isPlain, and_assoc] using h

theorem cut_of_notMem {c : Char} {cs : List Char} (h : c ∉ cs) : cut c cs = (cs, []) := by
  have hne : ∀ x ∈ cs, (x != c) = true := fun x hx => bne_iff_ne.mpr fun e => h (e ▸ hx)
  rw [cut, List.takeWhile_eq_self_iff.mpr hne, List.dropWhile_eq_nil_iff.mpr hne]
  rfl

theorem splitParams_of_notMem {cs : List Char} (h : ';' ∉ cs) : splitParams cs = (cs, []) := by
  have hlast : ';' ∉ cs.rtakeWhile (· != '/') := fun hm =>
    h ((List.rtakeWhile_suffix _ cs).subset hm)
  have hcs : cs.rdropWhile (· != '/') ++ cs.rtakeWhile (· != '/') = cs := by
    rw [List.rdropWhile, List.rtakeWhile, ← List.reverse_append, List.takeWhile_append_dropWhile,
      List.reverse_reverse]
  simp only [splitParams, cut_of_notMem hlast, hcs]

/-- A property of the characters of a text, one after the other. -/
theorem forall_mem_of_all {p : Char → Prop} [DecidablePred p] {cs : List Char}
    (h : (cs.all fun c => decide (p c)) = true) : ∀ c ∈ cs, p c := fun c hc =>
  of_decide_eq_true (List.all_eq_true.mp h c hc)

/-- What is left of a plain path after the scheme and the authority. -/
theorem cut_plain {path : List Char} (h : ∀ c ∈ path, isPlain c = true) (scheme : List Char) :
    cut '#' path = (path, []) ∧ cut '?' path = (path, []) ∧
      (if String.ofList scheme ∈ usesParams then splitParams path else (path, [])) =
        (path, []) := by
  have hno : ∀ c, isPlain c = false → c ∉ path := fun c hc hm => by
    rw [h c hm] at hc
    cases hc
  refine ⟨cut_of_notMem (hno _ (by decide)), cut_of_notMem (hno _ (by decide)), ?_⟩
  rw [splitParams_of_notMem (hno _ (by decide)), ite_self]

theorem filter_safe {cs : List Char} (h : ∀ c ∈ cs, isUnsafe c = false) :
    cs.filter (!isUnsafe ·) = cs :=
  List.filter_eq_self.mpr fun c hc => by rw [h c hc]; rfl

end Url

section
variable {host path base : List Char}

/-- A rooted path is all path. -/
theorem urlparse_rooted (scheme : List Char) (hp : ∀ c ∈ path, isPlain c = true)
    (hh : path.head? ≠ some '/') :
    urlparse ('/' :: path) scheme = { scheme, path := '/' :: path } := by
  have hplain : ∀ c ∈ '/' :: path, isPlain c = true := List.forall_mem_cons.mpr ⟨by decide, hp⟩
  obtain ⟨hc1, hc2, hc3⟩ := cut_plain hplain scheme
  have hclean : (('/' :: path).dropWhile isControlOrSpace).filter (!isUnsafe ·) = '/' :: path := by
    rw [List.dropWhile_cons_of_neg (by decide),
      filter_safe fun c hc => (isPlain_ne (hplain c hc)).1]
  have hscheme : splitScheme scheme ('/' :: path) = (scheme, '/' :: path) := by
    unfold splitScheme
    exact if_neg fun h => absurd h.2.1 (by decide)
  have hnet : splitNetloc ('/' :: path) = ([], '/' :: path) := by
    unfold splitNetloc
    split
    · rename_i heq
      rw [(List.cons_eq_cons.mp heq).2] at hh
      exact absurd rfl hh
    · rfl
  unfold urlparse
  simp only [hclean, hscheme, hnet, hc1, hc2, hc3]

/-- A URL of a host and a plain path. -/
theorem urlparse_https (hhost : ∀ c ∈ host, isUnsafe c = false ∧ isDelimiter c = false)
    (hp : ∀ c ∈ path, isPlain c = true) :
    urlparse ("https://".toList ++ (host ++ '/' :: path)) =
      { scheme := "https".toList, netloc := host, path := '/' :: path } := by
  have hplain : ∀ c ∈ '/' :: path, isPlain c = true := List.forall_mem_cons.mpr ⟨by decide, hp⟩
  obtain ⟨hc1, hc2, hc3⟩ := cut_plain hplain "https".toList
  have hsafe : ∀ c ∈ "https://".toList ++ (host ++ '/' :: path), isUnsafe c = false := by
    simp only [List.mem_append]
    rintro c (hc | hc | hc)
    · exact forall_mem_of_all (p := fun c => isUnsafe c = false) (by decide) c hc
    · exact (hhost c hc).1
    · exact (isPlain_ne (hplain c hc)).1
  have hclean : (("https://".toList ++ (host ++ '/' :: path)).dropWhile isControlOrSpace).filter
      (!isUnsafe ·) = "https://".toList ++ (host ++ '/' :: path) := by
    exact filter_safe hsafe
  have hscheme : splitScheme [] ("https://".toList ++ (host ++ '/' :: path)) =
      ("https".toList, '/' :: '/' :: (host ++ '/' :: path)) := by
    show splitScheme [] ('h' :: 't' :: 't' :: 'p' :: 's' :: ':' :: '/' :: '/' :: _) = _
    simp [splitScheme, cut, List.takeWhile, List.dropWhile]
    decide
  have hnet : splitNetloc ('/' :: '/' :: (host ++ '/' :: path)) = (host, '/' :: path) := by
    have hall : ∀ c ∈ host, (!isDelimiter c) = true := fun c hc => by rw [(hhost c hc).2]; rfl
    rw [splitNetloc, List.takeWhile_append_of_pos hall, List.dropWhile_append_of_pos hall,
      List.takeWhile_cons_of_neg (by decide), List.dropWhile_cons_of_neg (by decide),
      List.append_nil]
  unfold urlparse
  simp only [hclean, hscheme, hnet, hc1, hc2, hc3]

/-! ## Joining -/

theorem resolveSegments_plain {segments : List (List Char)}
    (h : ∀ seg ∈ segments, seg ≠ "..".toList ∧ seg ≠ ".".toList) (kept : List (List Char)) :
    resolveSegments kept segments = kept.reverse ++ segments := by
  induction segments generalizing kept with
  | nil => simp [resolveSegments]
  | cons seg segments ih =>
    obtain ⟨⟨h1, h2⟩, h⟩ := List.forall_mem_cons.mp h
    rw [resolveSegments, if_neg h1, if_neg h2, ih h]
    simp

/-- A rooted path without dot segments is its own resolution. -/
theorem resolvePath_plain (hr : path.head? = some '/')
    (h : ∀ seg ∈ path.splitOn '/', seg ≠ "..".toList ∧ seg ≠ ".".toList) :
    resolvePath base path = path := by
  have hlast : ¬ ((path.splitOn '/').getLast? = some ".".toList ∨
      (path.splitOn '/').getLast? = some "..".toList) := by
    rintro (hl | hl)
    · exact (h _ (List.mem_of_getLast? hl)).2 rfl
    · exact (h _ (List.mem_of_getLast? hl)).1 rfl
  have hne : path ≠ [] := by
    rintro rfl
    cases hr
  unfold resolvePath
  simp only [if_pos hr, resolveSegments_plain h, List.reverse_nil, List.nil_append, if_neg hlast,
    List.intercalate_splitOn, if_neg hne]

/-- A rooted path joined to the URL of a host. -/
theorem urljoin_rooted (hb : (urlparse base).scheme = "https".toList)
    (hn : (urlparse base).netloc = host) (hp : ∀ c ∈ path, isPlain c = true)
    (hh : path.head? ≠ some '/') :
    urljoin base ('/' :: path) = urlunparse
      { scheme := "https".toList, netloc := host
        path := resolvePath (urlparse base).path ('/' :: path) } := by
  have hbase : base ≠ [] := by
    rintro rfl
    exact absurd hb (by decide)
  have hrel : String.ofList "https".toList ∈ usesRelative := by decide
  have hnet : String.ofList "https".toList ∈ usesNetloc := by decide
  have hpath : '/' :: path ≠ [] := List.cons_ne_nil _ _
  unfold urljoin
  simp only [if_neg hbase, hb, urlparse_rooted _ hp hh, hn, hrel, hnet, if_true,
    ne_eq, not_true_eq_false, or_self, and_false, if_false, hpath, false_and]

theorem urlunparse_https (hne : host ≠ []) (hr : path.head? = some '/') :
    urlunparse { scheme := "https".toList, netloc := host, path } =
      "https://".toList ++ (host ++ path) := by
  unfold urlunparse
  simp [hne, hr]

end

end MangaManager.Lib
