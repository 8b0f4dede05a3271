import GrpcWebnext.NodeClient.MetadataForm

/-! When metadata survives the form of `Headers`: a binary key must not have two values, for
the platform joins them to a text that is base64 no more. -/
namespace GrpcWebnext.MetadataForm
open Framing (Bytes)
open Text (Str)

theorem not_whitespace {c : Char} (low : 33 ≤ c.toNat) : isAsciiWhitespace c = false := by
  have other : ∀ d : Char, d.toNat < 33 → c ≠ d := by
    rintro d small rfl
    omega
  have notFeed : c.toNat ≠ 12 := by omega
  simp [isAsciiWhitespace, isHttpWhitespace, other '\t' (by decide), other '\n' (by decide),
    other '\r' (by decide), other ' ' (by decide), notFeed]

section Base64Text

theorem encode_bytes {bytes : Bytes} {b : UInt8} (member : b ∈ Base64.encode bytes) :
    Base64.sextet b ≠ none ∧ b ≠ Base64.pad ∧ 43 ≤ b.toNat ∧ b.toNat < 127 := by
  rw [Base64.encode_eq_map] at member
  obtain ⟨n, inside, rfl⟩ := List.mem_map.mp member
  obtain ⟨read, noPad, low, high⟩ := Base64.sextet_digit (Base64.sextets_lt bytes n inside)
  rw [read]
  exact ⟨Option.some_ne_none n, noPad, UInt8.le_iff_toNat_le.mp low, UInt8.lt_iff_toNat_lt.mp high⟩

theorem base64_chars {bytes : Bytes} {c : Char} (member : c ∈ base64 bytes) :
    43 ≤ c.toNat ∧ c.toNat < 127 := by
  obtain ⟨b, inside, rfl⟩ := List.mem_map.mp member
  have printable : 43 ≤ b.toNat ∧ b.toNat < 127 := by
    rcases List.mem_append.mp inside with digit | pad
    · exact (encode_bytes digit).2.2
    · rw [List.eq_of_mem_replicate pad]
      decide
  rwa [Utf8.toNat_char]

theorem length_encode (bytes : Bytes) : (Base64.encode bytes).length % 4 ≠ 1 := by
  induction bytes using Base64.sextets.induct with
  | case1 => decide
  | case2 x => simp [Base64.encode]
  | case3 x y => simp [Base64.encode]
  | case4 x y z rest ih =>
      simp only [Base64.encode, List.length_cons]
      omega

/-- The digits of base64, without the padding. -/
def digits (bytes : Bytes) : Str := (Base64.encode bytes).map fun b => Char.ofNat b.toNat

theorem digits_ne_pad {bytes : Bytes} {c : Char} (member : c ∈ digits bytes) : c ≠ '=' := by
  obtain ⟨b, inside, rfl⟩ := List.mem_map.mp member
  obtain ⟨-, noPad, -, -⟩ := encode_bytes inside
  intro same
  apply noPad
  rw [← UInt8.toNat_inj, ← Utf8.toNat_char b, same]
  rfl

theorem dropPadding_digits (bytes : Bytes) {k : Nat} (few : k ≤ 2) :
    dropPadding (digits bytes ++ List.replicate k '=') = digits bytes := by
  have last : ∀ c ∈ (digits bytes).reverse, c ≠ '=' :=
    fun c member => digits_ne_pad (List.mem_reverse.mp member)
  have back := List.reverse_reverse (digits bytes)
  have sizes : k = 0 ∨ k = 1 ∨ k = 2 := by omega
  unfold dropPadding
  rw [List.reverse_append]
  cases front : (digits bytes).reverse with
  | nil =>
      rw [front] at back
      rw [← back]
      rcases sizes with rfl | rfl | rfl <;> rfl
  | cons c rest =>
      rw [front] at last back
      have plain := last c List.mem_cons_self
      rcases sizes with rfl | rfl | rfl
      · simp [plain]
      · simp [plain, ← back]
      · simp [← back]

theorem mapM_sextetOf {bytes : Bytes} (ascii : ∀ b ∈ bytes, b.toNat < 128) :
    (bytes.map fun b => Char.ofNat b.toNat).mapM sextetOf = bytes.mapM Base64.sextet := by
  induction bytes with
  | nil => rfl
  | cons b bytes ih =>
      obtain ⟨small, later⟩ := List.forall_mem_cons.mp ascii
      have first : sextetOf (Char.ofNat b.toNat) = Base64.sextet b := by
        rw [sextetOf, Utf8.toNat_char, if_pos small, UInt8.ofNat_toNat]
      rw [List.map_cons, List.mapM_cons, List.mapM_cons, first, ih later]

theorem mapM_digits (bytes : Bytes) : (digits bytes).mapM sextetOf = some (Base64.sextets bytes) := by
  rw [digits, mapM_sextetOf fun b member => by have printable := encode_bytes member; omega,
    Base64.encode_eq_map, Base64.mapM_sextet_digits (Base64.sextets_lt bytes)]

theorem base64_split (bytes : Bytes) :
    base64 bytes = digits bytes ++ List.replicate (Base64.wanted (Base64.encode bytes).length) '=' := by
  rw [base64, Base64.encodePadded, List.map_append, List.map_replicate]
  rfl

theorem atob_base64 (bytes : Bytes) : atob (base64 bytes) = some bytes := by
  have plain : (base64 bytes).filter (fun c => !isAsciiWhitespace c) = base64 bytes := by
    apply List.filter_eq_self.mpr
    intro c member
    rw [not_whitespace (by have printable := base64_chars member; omega)]
    rfl
  have size : (base64 bytes).length % 4 = 0 := by
    rw [base64_split, List.length_append, List.length_replicate, digits, List.length_map, Base64.wanted]
    omega
  have few : Base64.wanted (Base64.encode bytes).length ≤ 2 := by
    have odd := length_encode bytes
    unfold Base64.wanted
    omega
  simp only [atob, plain, size, if_true]
  rw [base64_split, dropPadding_digits bytes few, mapM_digits, Option.bind_some, Base64.unpack_sextets]
  rfl

end Base64Text

section Encoding
variable {js : LowerCase}

/-- What is appended, in order. -/
def pairsOf (map : List (Str × List MetadataValue)) : List (Str × Str) :=
  map.flatMap fun entry => entry.2.map fun value => (entry.1, value.text)

theorem appendAll_eq (pairs : List (Str × Str)) : ∀ headers : Headers,
    pairs.foldlM (fun headers pair => Headers.append headers pair.1 pair.2) headers =
      if pairs.all fun pair => acceptable pair.1 pair.2 then
        some ⟨headers.list ++ pairs.map fun pair => (pair.1, normalizeValue pair.2)⟩
      else none := by
  induction pairs with
  | nil =>
      intro headers
      rw [List.map_nil, List.append_nil]
      rfl
  | cons pair pairs ih =>
      intro headers
      rw [List.foldlM_cons, Headers.append, List.all_cons]
      cases here : acceptable pair.1 pair.2 with
      | false => rfl
      | true =>
          rw [if_pos rfl, Option.bind_eq_bind, Option.bind_some, ih, Bool.true_and, List.map_cons,
            List.append_assoc]
          rfl

theorem toHeaders_pairs (map : List (Str × List MetadataValue)) : ∀ headers : Headers,
    map.foldlM (fun headers (key, values) =>
      values.foldlM (fun headers value => Headers.append headers key value.text) headers) headers =
    (pairsOf map).foldlM (fun headers pair => Headers.append headers pair.1 pair.2) headers := by
  induction map with
  | nil =>
      intro headers
      rfl
  | cons entry map ih =>
      intro headers
      rw [pairsOf, List.flatMap_cons, ← pairsOf, List.foldlM_append, List.foldlM_map, List.foldlM_cons]
      congr 1
      funext headers
      exact ih headers

/-- A value with no whitespace at its ends. -/
def Trimmed (value : Str) : Prop :=
  (∀ c, value.head? = some c → isHttpWhitespace c = false) ∧
    ∀ c, value.getLast? = some c → isHttpWhitespace c = false

/-- Bytes under the binary keys and trimmed ASCII under the others. -/
def Metadata.InDomain (md : Metadata js) : Prop :=
  ∀ entry ∈ md.map, ∀ value ∈ entry.2, match value with
    | .bin _ => isBinKey entry.1 = true
    | .ascii text => isBinKey entry.1 = false ∧ (∀ c ∈ text, c.toNat < 128) ∧ Trimmed text

theorem normalizeValue_trimmed {value : Str} (trimmed : Trimmed value) : normalizeValue value = value := by
  have front : value.dropWhile isHttpWhitespace = value := by
    cases value with
    | nil => rfl
    | cons c rest => rw [List.dropWhile_cons, trimmed.1 c rfl]; rfl
  rw [normalizeValue, front]
  apply List.rdropWhile_eq_self_iff.mpr
  intro nonempty
  rw [trimmed.2 _ (List.getLast?_eq_getLast_of_ne_nil nonempty)]
  exact Bool.false_ne_true

theorem base64_trimmed (bytes : Bytes) : Trimmed (base64 bytes) := by
  have plain : ∀ c ∈ base64 bytes, isHttpWhitespace c = false := by
    intro c member
    have printable := base64_chars member
    exact (Bool.or_eq_false_iff.mp (not_whitespace (by omega))).1
  exact ⟨fun c first => plain c (List.mem_of_mem_head? first), fun c last =>
    plain c (List.mem_of_getLast? last)⟩

theorem headerName_ascii {name : Str} (legal : isHeaderName name = true) : ∀ c ∈ name, c.toNat < 128 := by
  intro c member
  exact isNameChar_ascii (List.all_eq_true.mp (Bool.and_eq_true_iff.mp legal).2 c member)

theorem isByteString_ascii {s : Str} (ascii : ∀ c ∈ s, c.toNat < 128) : isByteString s = true := by
  apply List.all_eq_true.mpr
  intro c member
  have small := ascii c member
  exact decide_eq_true (by omega)

theorem base64_headerValue (bytes : Bytes) : isHeaderValue (base64 bytes) = true := by
  apply List.all_eq_true.mpr
  intro c member
  have printable := base64_chars member
  have other : ∀ d : Char, d.toNat < 33 → c ≠ d := by
    rintro d small rfl
    omega
  have notNul : c.toNat ≠ 0 := by omega
  simp [notNul, other '\n' (by decide), other '\r' (by decide)]

theorem Metadata.InDomain.text {md : Metadata js} (domain : md.InDomain) {entry : Str × List MetadataValue}
    (inside : entry ∈ md.map) {value : MetadataValue} (member : value ∈ entry.2) :
    Trimmed value.text ∧ ∀ c ∈ value.text, c.toNat < 128 := by
  have plain := domain entry inside value member
  cases value with
  | ascii text => exact ⟨plain.2.2, plain.2.1⟩
  | bin bytes =>
      refine ⟨base64_trimmed bytes, fun c member => ?_⟩
      have printable := base64_chars member
      omega

/-- Of metadata in the domain only a name or a value that is none for `Headers` is refused. -/
theorem toHeaders_inDomain {md : Metadata js} (domain : md.InDomain) :
    md.toHeaders =
      if (pairsOf md.map).all fun pair => isHeaderName pair.1 && isHeaderValue pair.2 then
        some ⟨pairsOf md.map⟩
      else none := by
  have texts : ∀ pair ∈ pairsOf md.map, Trimmed pair.2 ∧ ∀ c ∈ pair.2, c.toNat < 128 := by
    intro pair member
    obtain ⟨entry, inside, member⟩ := List.mem_flatMap.mp member
    obtain ⟨value, among, rfl⟩ := List.mem_map.mp member
    exact domain.text inside among
  have same : (pairsOf md.map).all (fun pair => acceptable pair.1 pair.2) =
      (pairsOf md.map).all fun pair => isHeaderName pair.1 && isHeaderValue pair.2 := by
    rw [Bool.eq_iff_iff, List.all_eq_true, List.all_eq_true]
    apply forall₂_congr
    intro pair member
    obtain ⟨trimmed, ascii⟩ := texts pair member
    rw [acceptable, normalizeValue_trimmed trimmed, isByteString_ascii ascii, Bool.and_true]
    cases legal : isHeaderName pair.1 with
    | false => rw [Bool.and_false]
    | true => rw [isByteString_ascii (headerName_ascii legal)]; rfl
  have unchanged : (pairsOf md.map).map (fun pair => (pair.1, normalizeValue pair.2)) = pairsOf md.map := by
    refine (List.map_congr_left ?_).trans (List.map_id _)
    intro pair member
    rw [normalizeValue_trimmed (texts pair member).1]
    rfl
  rw [Metadata.toHeaders, toHeaders_pairs, appendAll_eq, unchanged, same]
  rfl

end Encoding

section Decoding

theorem valuesOf_of_notMem {key : Str} {map : List (Str × List MetadataValue)}
    (absent : key ∉ map.map Prod.fst) : valuesOf key map = [] := by
  induction map with
  | nil => rfl
  | cons entry map ih =>
      rw [List.map_cons, List.mem_cons, not_or] at absent
      rw [valuesOf, if_neg (Ne.symm absent.1), ih absent.2]

theorem valuesOf_of_mem {map : List (Str × List MetadataValue)} (distinct : (map.map Prod.fst).Nodup)
    {entry : Str × List MetadataValue} (member : entry ∈ map) : valuesOf entry.1 map = entry.2 := by
  induction map with
  | nil => cases member
  | cons first map ih =>
      rw [List.map_cons, List.nodup_cons] at distinct
      rw [valuesOf]
      rcases List.mem_cons.mp member with rfl | later
      · exact if_pos rfl
      · rw [if_neg, ih distinct.2 later]
        intro same
        exact distinct.1 (same ▸ List.mem_map_of_mem later)

/-- The header values of a name are the texts of the metadata's values. -/
theorem values_pairsOf {map : List (Str × List MetadataValue)} (distinct : (map.map Prod.fst).Nodup)
    (lowered : ∀ name ∈ map.map Prod.fst, byteLowercase name = name) (name : Str) :
    (Headers.mk (pairsOf map)).values name = (valuesOf name map).map MetadataValue.text := by
  induction map with
  | nil => rfl
  | cons entry map ih =>
      rw [List.map_cons, List.nodup_cons] at distinct
      rw [List.map_cons, List.forall_mem_cons] at lowered
      have rest := ih distinct.2 lowered.2
      have first : (entry.2.map fun value => (entry.1, value.text)).filterMap
          (fun header => if byteLowercase header.1 = name then some header.2 else none) =
          if entry.1 = name then entry.2.map MetadataValue.text else [] := by
        rw [List.filterMap_map]
        split
        · rename_i same
          rw [← List.filterMap_eq_map]
          congr 1
          funext value
          simp only [Function.comp_apply, lowered.1, if_pos same]
        · rename_i differs
          apply List.filterMap_eq_nil_iff.mpr
          intro value _
          simp only [Function.comp_apply, lowered.1, if_neg differs]
      rw [Headers.values] at rest ⊢
      rw [pairsOf, List.flatMap_cons, ← pairsOf, List.filterMap_append, first, rest, valuesOf]
      split
      · rename_i same
        rw [valuesOf_of_notMem (same ▸ distinct.1), List.map_nil, List.append_nil]
      · rfl

theorem mem_names {headers : Headers} {name : Str} : name ∈ headers.names ↔ headers.values name ≠ [] := by
  rw [Headers.names, List.mem_insertionSort, List.mem_dedup, List.mem_map, Headers.values, ne_eq,
    List.filterMap_eq_nil_iff]
  constructor
  · rintro ⟨header, member, rfl⟩ none
    have refused := none header member
    rw [if_pos rfl] at refused
    cases refused
  · intro some
    by_contra nothing
    apply some
    intro header member
    exact if_neg fun same => nothing ⟨header, member, same⟩

theorem names_nodup (headers : Headers) : headers.names.Nodup :=
  (List.perm_insertionSort _ _).nodup_iff.mpr (List.nodup_dedup _)

theorem combined_name {headers : Headers} {name : Str} {pair : Str × Str}
    (member : pair ∈ headers.combined name) : pair.1 = name := by
  rw [Headers.combined] at member
  split at member
  · obtain ⟨value, _, rfl⟩ := List.mem_map.mp member
    rfl
  · rw [List.mem_singleton.mp member]

theorem filter_combined (headers : Headers) (name other : Str) :
    (headers.combined other).filter (fun pair => pair.1 = name) =
      if other = name then headers.combined other else [] := by
  split
  · rename_i same
    apply List.filter_eq_self.mpr
    intro pair member
    exact decide_eq_true ((combined_name member).trans same)
  · rename_i differs
    apply List.filter_eq_nil_iff.mpr
    intro pair member found
    exact differs ((combined_name member).symm.trans (of_decide_eq_true found))

/-- The pairs of one name are read together. -/
theorem filter_sortAndCombine (headers : Headers) (name : Str) :
    headers.sortAndCombine.filter (fun pair => pair.1 = name) =
      if name ∈ headers.names then headers.combined name else [] := by
  have distinct := names_nodup headers
  unfold Headers.sortAndCombine
  generalize headers.names = names at distinct
  induction names with
  | nil => rfl
  | cons other names ih =>
      obtain ⟨absent, distinct⟩ := List.nodup_cons.mp distinct
      rw [List.flatMap_cons, List.filter_append, filter_combined, ih distinct]
      by_cases same : other = name
      · subst same
        rw [if_pos rfl, if_neg absent, if_pos List.mem_cons_self, List.append_nil]
      · rw [if_neg same, List.nil_append]
        congr 1
        exact propext ⟨List.mem_cons_of_mem _, fun known =>
          (List.mem_cons.mp known).resolve_left (Ne.symm same)⟩

theorem mem_of_valuesOf {key : Str} {map : List (Str × List MetadataValue)} (some : valuesOf key map ≠ []) :
    (key, valuesOf key map) ∈ map := by
  induction map with
  | nil => exact absurd rfl some
  | cons entry map ih =>
      rw [valuesOf] at some ⊢
      split
      · rename_i same
        rw [← same]
        exact List.mem_cons_self
      · rename_i differs
        rw [if_neg differs] at some
        exact List.mem_cons_of_mem _ (ih some)

/-- What one pair adds. -/
def decodePair (host : Host) (pair : Str × Str) : Option MetadataValue :=
  if isBinKey pair.1 then (unbase64 host pair.2).map .bin else some (.ascii pair.2)

variable {js : LowerCase} {host : Host}

theorem addPairs_cons (pair : Str × Str) (pairs : List (Str × Str)) (md : Metadata js) :
    addPairs host (pair :: pairs) md =
      (decodePair host pair).bind fun value => addPairs host pairs (md.add pair.1 value) := by
  rw [addPairs, decodePair]
  split
  · cases unbase64 host pair.2 <;> rfl
  · rfl

theorem addPairs_isSome {pairs : List (Str × Str)} (all : ∀ pair ∈ pairs, (decodePair host pair).isSome) :
    ∀ md : Metadata js, ∃ back, addPairs host pairs md = some back := by
  induction pairs with
  | nil =>
      intro md
      exact ⟨md, rfl⟩
  | cons pair pairs ih =>
      intro md
      obtain ⟨here, later⟩ := List.forall_mem_cons.mp all
      obtain ⟨value, read⟩ := Option.isSome_iff_exists.mp here
      rw [addPairs_cons, read, Option.bind_some]
      exact ih later _

/-- Under each key the values of its pairs are added in order. -/
theorem addPairs_get {pairs : List (Str × Str)} (key : Str) : ∀ {md back : Metadata js},
    addPairs host pairs md = some back →
      ∃ values, (pairs.filter fun pair => js.lower pair.1 = js.lower key).mapM (decodePair host) =
        some values ∧
        back.get key = md.get key ++ values := by
  induction pairs with
  | nil =>
      intro md back added
      cases added
      exact ⟨[], rfl, (List.append_nil _).symm⟩
  | cons pair pairs ih =>
      intro md back added
      rw [addPairs_cons] at added
      obtain ⟨value, read, added⟩ := Option.bind_eq_some_iff.mp added
      obtain ⟨values, rest, got⟩ := ih added
      rw [Metadata.get_add] at got
      rw [List.filter_cons]
      by_cases same : js.lower pair.1 = js.lower key
      · rw [if_pos same, List.append_assoc] at got
        rw [if_pos (decide_eq_true same), List.mapM_cons, read, rest]
        exact ⟨value :: values, rfl, got⟩
      · rw [if_neg same] at got
        rw [if_neg (by rw [decide_eq_true_iff]; exact same)]
        exact ⟨values, rest, got⟩

end Decoding

section RoundTrip
variable {js : LowerCase}

/-- The metadata comes back from its headers: byte strings as they were, and texts as they
were or joined to one. -/
def Metadata.Survives (host : Host) (md : Metadata js) : Prop :=
  ∃ headers, ∃ back : Metadata js, md.toHeaders = some headers ∧ fromHeaders host headers = some back ∧
    ∀ key, (isBinKey (js.lower key) = true → back.get key = md.get key) ∧
      (isBinKey (js.lower key) = false → back.get key = md.get key ∨
        2 ≤ (md.get key).length ∧ back.get key = [.ascii (join ((md.get key).map MetadataValue.text))])

/-- Every key with a value is a header name, no text has a NUL or a line break, and no binary
key has a second value. -/
def Metadata.Fits (md : Metadata js) : Prop :=
  ∀ entry ∈ md.map, (entry.2 ≠ [] → isHeaderName entry.1 = true) ∧
    (∀ text, .ascii text ∈ entry.2 → isHeaderValue text = true) ∧
    (isBinKey entry.1 = true → entry.2.length ≤ 1)

theorem Metadata.byteLowercase_name (md : Metadata js) :
    ∀ name ∈ md.map.map Prod.fst, byteLowercase name = name := by
  intro name member
  obtain ⟨key, rfl⟩ := md.normalized name member
  exact (List.map_congr_left (js.lowered key)).trans (List.map_id _)

theorem Metadata.lower_name (md : Metadata js) {name : Str} (member : name ∈ md.map.map Prod.fst)
    (legal : isHeaderName name = true) : js.lower name = name :=
  (js.ascii name (headerName_ascii legal)).trans (md.byteLowercase_name name member)

theorem names_pairsOf (md : Metadata js) (name : Str) :
    name ∈ (Headers.mk (pairsOf md.map)).names ↔ valuesOf name md.map ≠ [] := by
  rw [mem_names, values_pairsOf md.distinct md.byteLowercase_name, ne_eq, List.map_eq_nil_iff]

/-- What the headers of metadata make of one key when they are read back. -/
theorem back_get {host : Host} {md back : Metadata js}
    (legal : ∀ entry ∈ md.map, entry.2 ≠ [] → isHeaderName entry.1 = true)
    (read : fromHeaders host ⟨pairsOf md.map⟩ = some back) (key : Str) :
    (md.get key = [] → back.get key = []) ∧
      (md.get key ≠ [] → ((Headers.mk (pairsOf md.map)).combined (js.lower key)).mapM (decodePair host) =
        some (back.get key)) := by
  obtain ⟨values, decoded, got⟩ := addPairs_get key read
  have stays : ∀ pair ∈ (Headers.mk (pairsOf md.map)).sortAndCombine, js.lower pair.1 = pair.1 := by
    intro pair member
    obtain ⟨name, inside, among⟩ := List.mem_flatMap.mp member
    have entry := mem_of_valuesOf ((names_pairsOf md name).mp inside)
    rw [combined_name among]
    exact md.lower_name (List.mem_map_of_mem entry) (legal _ entry ((names_pairsOf md name).mp inside))
  have filtered : (Headers.mk (pairsOf md.map)).sortAndCombine.filter
    (fun pair => js.lower pair.1 = js.lower key) =
      (Headers.mk (pairsOf md.map)).sortAndCombine.filter fun pair => pair.1 = js.lower key := by
    apply List.filter_congr
    intro pair member
    rw [stays pair member]
  rw [filtered, filter_sortAndCombine] at decoded
  have empty : (Metadata.empty : Metadata js).get key = [] := rfl
  rw [got, empty, List.nil_append]
  constructor
  · intro none
    rw [if_neg (mt (names_pairsOf md _).mp (not_not_intro none))] at decoded
    exact (Option.some.inj decoded).symm
  · intro some
    rwa [if_pos ((names_pairsOf md _).mpr some)] at decoded

theorem unbase64_base64 (host : Host) (bytes : Bytes) : unbase64 host (base64 bytes) = some bytes := by
  rw [unbase64]
  split
  · exact atob_base64 bytes
  · rw [host.decodes]

theorem join_single (value : Str) : join [value] = value := by
  rw [join, List.intercalate_singleton]

/-- Only cookies are kept apart; every other name comes as one pair. -/
theorem combined_other (md : Metadata js) {name : Str} (other : name ≠ "set-cookie".toList) :
    (Headers.mk (pairsOf md.map)).combined name =
      [(name, join ((valuesOf name md.map).map MetadataValue.text))] := by
  rw [Headers.combined, if_neg other, values_pairsOf md.distinct md.byteLowercase_name]

theorem bin_ne_cookie {name : Str} (binary : isBinKey name = true) : name ≠ "set-cookie".toList := by
  rintro rfl
  revert binary
  decide

/-- A binary key with one value comes back as that value. -/
theorem decode_binary (host : Host) {md : Metadata js} {name : Str} {bytes : Bytes}
    (binary : isBinKey name = true) (one : valuesOf name md.map = [.bin bytes]) :
    ((Headers.mk (pairsOf md.map)).combined name).mapM (decodePair host) = some [.bin bytes] := by
  rw [combined_other md (bin_ne_cookie binary), one, List.map_singleton, join_single, List.mapM_cons,
    decodePair, if_pos binary, MetadataValue.text, unbase64_base64]
  rfl

/-- The values of a binary key are byte strings, and the one there may be is one. -/
theorem binary_value {md : Metadata js} (domain : md.InDomain) (fits : md.Fits) {name : Str}
    (binary : isBinKey name = true) (some : valuesOf name md.map ≠ []) :
    ∃ bytes, valuesOf name md.map = [.bin bytes] := by
  have entry := mem_of_valuesOf some
  have few := (fits _ entry).2.2 binary
  obtain ⟨value, rest, same⟩ := List.exists_cons_of_ne_nil some
  rw [same] at few entry
  obtain rfl : rest = [] := List.eq_nil_of_length_eq_zero (by rw [List.length_cons] at few; omega)
  have plain := domain _ entry value List.mem_cons_self
  cases value with
  | ascii text => cases binary.symm.trans plain.1
  | bin bytes => exact ⟨bytes, same⟩

/-- The values of another key are texts. -/
theorem ascii_values {md : Metadata js} (domain : md.InDomain) {name : Str} (ascii : isBinKey name = false) :
    (valuesOf name md.map).map (fun value => MetadataValue.ascii value.text) = valuesOf name md.map := by
  refine (List.map_congr_left ?_).trans (List.map_id _)
  intro value member
  have entry := mem_of_valuesOf (List.ne_nil_of_mem member)
  have plain := domain _ entry value member
  cases value with
  | ascii text => rfl
  | bin bytes => cases ascii.symm.trans plain

theorem decode_ascii (host : Host) {name : Str} (ascii : isBinKey name = false) (texts : List Str) :
    (texts.map fun text => (name, text)).mapM (decodePair host) = some (texts.map .ascii) := by
  rw [Fallible.mapM_eq_some_iff, List.forall₂_map_left_iff, List.forall₂_map_right_iff]
  apply List.forall₂_same.mpr
  intro text _
  exact if_neg (by rw [ascii]; exact Bool.false_ne_true)

theorem pair_of_entry {md : Metadata js} {entry : Str × List MetadataValue} (inside : entry ∈ md.map)
    {value : MetadataValue} (member : value ∈ entry.2) : (entry.1, value.text) ∈ pairsOf md.map :=
  List.mem_flatMap.mpr ⟨entry, inside, List.mem_map_of_mem member⟩

theorem fits_legal {md : Metadata js} (fits : md.Fits) :
    (pairsOf md.map).all (fun pair => isHeaderName pair.1 && isHeaderValue pair.2) = true := by
  apply List.all_eq_true.mpr
  intro pair member
  obtain ⟨entry, inside, among⟩ := List.mem_flatMap.mp member
  obtain ⟨value, here, rfl⟩ := List.mem_map.mp among
  obtain ⟨named, texts, -⟩ := fits entry inside
  apply Bool.and_eq_true_iff.mpr
  refine ⟨named (List.ne_nil_of_mem here), ?_⟩
  cases value with
  | ascii text => exact texts text here
  | bin bytes => exact base64_headerValue bytes

/-- What comes back fits: a second value of a binary key would be lost in the join. -/
theorem fits_of_survives {host : Host} {md : Metadata js} (domain : md.InDomain)
    (survives : md.Survives host) :
    md.Fits := by
  obtain ⟨headers, back, encoded, read, same⟩ := survives
  intro entry inside
  rw [toHeaders_inDomain domain] at encoded
  split at encoded
  · rename_i legal
    cases encoded
    have pairs := List.all_eq_true.mp legal
    have named : ∀ entry ∈ md.map, entry.2 ≠ [] → isHeaderName entry.1 = true := by
      intro entry inside some
      obtain ⟨value, rest, first⟩ := List.exists_cons_of_ne_nil some
      have member : value ∈ entry.2 := first ▸ List.mem_cons_self
      exact (Bool.and_eq_true_iff.mp (pairs _ (pair_of_entry inside member))).1
    refine ⟨named entry inside, ?_, ?_⟩
    · intro text member
      exact (Bool.and_eq_true_iff.mp (pairs _ (pair_of_entry inside member))).2
    · intro binary
      obtain ⟨key, lower⟩ := md.normalized entry.1 (List.mem_map_of_mem inside)
      have got : md.get key = entry.2 := by
        rw [Metadata.get, lower, valuesOf_of_mem md.distinct inside]
      by_cases none : entry.2 = []
      · rw [none]
        exact Nat.zero_le 1
      · have decoded := (back_get named read key).2 (by rwa [got])
        rw [(same key).1 (by rwa [lower]), got, lower, combined_other md (bin_ne_cookie binary)] at decoded
        have one := (Fallible.mapM_eq_some_iff.mp decoded).length_eq
        rw [← one]
        exact Nat.le_refl 1
  · cases encoded

theorem survives_of_fits (host : Host) {md : Metadata js} (domain : md.InDomain) (fits : md.Fits) :
    md.Survives host := by
  have named : ∀ entry ∈ md.map, entry.2 ≠ [] → isHeaderName entry.1 = true :=
    fun entry inside => (fits entry inside).1
  have decodes : ∀ pair ∈ (Headers.mk (pairsOf md.map)).sortAndCombine, (decodePair host pair).isSome := by
    intro pair member
    obtain ⟨name, inside, among⟩ := List.mem_flatMap.mp member
    cases binary : isBinKey name with
    | false =>
        rw [decodePair, combined_name among, if_neg (by rw [binary]; exact Bool.false_ne_true)]
        rfl
    | true =>
        obtain ⟨bytes, one⟩ := binary_value domain fits binary ((names_pairsOf md name).mp inside)
        have all := decode_binary host binary one
        exact Fallible.mapM_isSome_iff.mp (by rw [all]; rfl) pair among
  obtain ⟨back, read⟩ := addPairs_isSome decodes (Metadata.empty : Metadata js)
  refine ⟨⟨pairsOf md.map⟩, back, ?_, read, ?_⟩
  · rw [toHeaders_inDomain domain, if_pos (fits_legal fits)]
  · intro key
    obtain ⟨absent, present⟩ := back_get named read key
    by_cases none : md.get key = []
    · rw [absent none, none]
      exact ⟨fun _ => rfl, fun _ => .inl rfl⟩
    · have decoded := present none
      constructor
      · intro binary
        obtain ⟨bytes, one⟩ := binary_value domain fits binary none
        rw [decode_binary host binary one] at decoded
        exact (Option.some.inj decoded).symm.trans one.symm
      · intro ascii
        have texts : (md.get key).map (fun value => MetadataValue.ascii value.text) = md.get key :=
          ascii_values domain ascii
        by_cases cookie : js.lower key = "set-cookie".toList
        · rw [Headers.combined, if_pos cookie, values_pairsOf md.distinct md.byteLowercase_name,
            decode_ascii host ascii, List.map_map] at decoded
          exact .inl ((Option.some.inj decoded).symm.trans texts)
        · rw [combined_other md cookie] at decoded
          have joined := (Option.some.inj (decoded.symm.trans (decode_ascii host ascii [_])))
          by_cases several : 2 ≤ (md.get key).length
          · exact .inr ⟨several, joined⟩
          · obtain ⟨value, same⟩ : ∃ value, md.get key = [value] := by
              have some := List.length_pos_iff.mpr none
              exact List.length_eq_one_iff.mp (by omega)
            rw [← Metadata.get, same, List.map_singleton, List.map_singleton, join_single] at joined
            rw [same, List.map_singleton] at texts
            exact .inl (joined.trans (texts.trans same.symm))

/-- In the domain, metadata survives exactly when it fits. -/
theorem survives_iff (host : Host) (md : Metadata js) (domain : md.InDomain) : md.Survives host ↔ md.Fits :=
  ⟨fits_of_survives domain, survives_of_fits host domain⟩

end RoundTrip

theorem toLower_toLower (c : Char) : c.toLower.toLower = c.toLower := by
  by_cases small : c.toNat < 128
  · exact toLower_idem small
  · have same : c.toLower = c := by
      have above : ¬ (c.val ≥ 'A'.val ∧ c.val ≤ 'Z'.val) := by
        rintro ⟨-, high⟩
        have bound : c.toNat ≤ 90 := UInt32.le_iff_toNat_le.mp high
        omega
      exact dif_neg above
    rw [same, same]

/-- Lower case letter by letter, as it is for ASCII. -/
def asciiLower : LowerCase where
  lower s := s.map Char.toLower
  ascii _ _ := rfl
  lowered := by
    intro s c member
    obtain ⟨d, _, rfl⟩ := List.mem_map.mp member
    exact toLower_toLower d

/-- A platform with `atob`; its buffers are not asked. -/
def browser : Host where
  hasAtob := true
  buffer text := (atob text).getD []
  decodes bytes := by rw [atob_base64]; rfl

/-- Two values under a binary key, the second added to the first. -/
def twoTokens : Metadata asciiLower :=
  ((Metadata.empty.add "x-bin".toList (.bin [1])).add "X-Bin".toList (.bin [2]))

def oneToken : Metadata asciiLower :=
  ((Metadata.empty.add "x-bin".toList (.bin [1, 2])).add "k".toList (.ascii ['a'])).add "K".toList
    (.ascii ['b'])

theorem twoTokens_inDomain : twoTokens.InDomain := by
  intro entry inside value member
  obtain rfl : entry = ("x-bin".toList, [.bin [1], .bin [2]]) := List.mem_singleton.mp inside
  rcases List.mem_cons.mp member with rfl | last
  · decide
  · rw [List.mem_singleton.mp last]
    decide

/-- The platform reads back one text for both values, and `atob` throws at its comma. -/
theorem twoTokens_lost : twoTokens.InDomain ∧
    twoTokens.toHeaders.map Headers.sortAndCombine = some [("x-bin".toList, "AQ==, Ag==".toList)] ∧
    atob "AQ==, Ag==".toList = none ∧ ¬ twoTokens.Survives browser := by
  refine ⟨twoTokens_inDomain, by decide, by decide, ?_⟩
  intro survives
  have fits := fits_of_survives twoTokens_inDomain survives
  have few := (fits ("x-bin".toList, [.bin [1], .bin [2]]) List.mem_cons_self).2.2 (by decide)
  exact absurd few (by decide)

theorem trimmed_single {c : Char} (plain : isHttpWhitespace c = false) : Trimmed [c] := by
  constructor
  · intro d first
    cases first
    exact plain
  · intro d last
    cases last
    exact plain

theorem oneToken_survives : oneToken.Survives browser := by
  have small : ∀ c : Char, c.toNat = 97 ∨ c.toNat = 98 → c.toNat < 128 := by
    intro c letter
    omega
  have domain : oneToken.InDomain := by
    intro entry inside
    rcases List.mem_cons.mp inside with rfl | last
    · exact List.forall_mem_singleton.mpr rfl
    · obtain rfl := List.mem_singleton.mp last
      refine List.forall_mem_cons.mpr ⟨?_, List.forall_mem_singleton.mpr ?_⟩
      · exact ⟨rfl, List.forall_mem_singleton.mpr (small 'a' (.inl rfl)), trimmed_single rfl⟩
      · exact ⟨rfl, List.forall_mem_singleton.mpr (small 'b' (.inr rfl)), trimmed_single rfl⟩
  refine (survives_iff browser oneToken domain).mpr ?_
  intro entry inside
  rcases List.mem_cons.mp inside with rfl | last
  · refine ⟨fun _ => rfl, ?_, fun _ => Nat.le_refl 1⟩
    intro text member
    cases List.mem_singleton.mp member
  · obtain rfl := List.mem_singleton.mp last
    refine ⟨fun _ => rfl, ?_, nofun⟩
    intro text member
    rcases List.mem_cons.mp member with same | other
    · cases same
      rfl
    · cases List.mem_singleton.mp other
      rfl

end GrpcWebnext.MetadataForm
