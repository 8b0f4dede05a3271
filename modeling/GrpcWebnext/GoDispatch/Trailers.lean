import GrpcWebnext.Metadata
import Mathlib.Data.List.AList
import Mathlib.Data.List.Dedup

/-! How the Go response writer takes one header map apart: the initial metadata, the names
declared as trailers, and the keys under the trailer prefix. A Go string is its bytes. -/
namespace GrpcWebnext.GoDispatch
open Framing (Bytes)

/-- `http.Header`, in the order that a map happens to walk it. -/
abbrev Header := AList fun _ : Bytes => List Bytes

/-- `http.TrailerPrefix`. -/
def trailerPrefix : Bytes := utf8 "Trailer:"

def trailer : Bytes := utf8 "Trailer"

def fieldMarks : Bytes := utf8 "!#$%&'*+-.^_`|~"

def validHeaderFieldByte (c : UInt8) : Bool :=
  (48 ≤ c && c ≤ 57) || (65 ≤ c && c ≤ 90) || (97 ≤ c && c ≤ 122) || fieldMarks.contains c

/-- The first letter and every letter behind a dash in upper case, the others in lower case. -/
def canonicalFrom : Bool → Bytes → Bytes
  | _, [] => []
  | upper, c :: rest =>
      (if upper && 97 ≤ c && c ≤ 122 then c - 32 else if !upper && 65 ≤ c && c ≤ 90 then c + 32 else c) ::
        canonicalFrom (c == 45) rest

/-- What is no field name is left as it is. -/
def canonicalMIMEHeaderKey (s : Bytes) : Bytes :=
  if s.all validHeaderFieldByte then canonicalFrom true s else s

/-- The characters of `unicode.IsSpace`. -/
def spaceRunes : List Char :=
  ['\t', '\n', '\x0b', '\x0c', '\r', ' ', '\u0085', '\u00a0', '\u1680', '\u2000', '\u2001',
    '\u2002', '\u2003',
    '\u2004', '\u2005', '\u2006', '\u2007', '\u2008', '\u2009', '\u200a', '\u2028', '\u2029',
      '\u202f', '\u205f',
    '\u3000']

/-- Some of the words are taken off the front as long as there are any. -/
def strip (words : List Bytes) : Nat → Bytes → Bytes
  | 0, s => s
  | n + 1, s => match words.find? (·.isPrefixOf s) with
    | some word => strip words n (s.drop word.length)
    | none => s

def trimLeft (s : Bytes) : Bytes := strip (spaceRunes.map String.utf8EncodeChar) s.length s

def trimRight (s : Bytes) : Bytes :=
  (strip (spaceRunes.map fun c => (String.utf8EncodeChar c).reverse) s.length s.reverse).reverse

def trimSpace (s : Bytes) : Bytes := trimRight (trimLeft s)

/-- The set of names that the `Trailer` header lists. -/
def declaredTrailers (h : Header) : List Bytes :=
  (((h.lookup trailer).getD []).flatMap fun list =>
    (((list.splitOn 44).map trimSpace).filter (· ≠ [])).map canonicalMIMEHeaderKey).dedup

def hasPrefix (key : Bytes) : Bool := trailerPrefix.isPrefixOf key

def cutPrefix (key : Bytes) : Option Bytes :=
  if hasPrefix key then some (key.drop trailerPrefix.length) else none

/-- Assignments to a map one after the other. -/
def assignAll (pairs : List (Bytes × List Bytes)) (out : Header) : Header :=
  pairs.foldl (fun out pair => out.insert pair.1 pair.2) out

/-- The loop of `commit`. -/
def splitInitial (h : Header) : Header :=
  assignAll ((h.entries.filter fun entry => !((declaredTrailers h).contains entry.1 || hasPrefix entry.1)).map
    fun entry => (entry.1, entry.2)) ∅

/-- What the first loop of `finish` assigns. -/
def declaredPairs (h : Header) : List (Bytes × List Bytes) :=
  (declaredTrailers h).filterMap fun name => (h.lookup name).map fun v => (name, v)

/-- What the second loop of `finish` assigns. -/
def prefixedPairs (h : Header) : List (Bytes × List Bytes) :=
  h.entries.filterMap fun entry => (cutPrefix entry.1).map fun name => (canonicalMIMEHeaderKey name, entry.2)

def harvest (h : Header) : Header := assignAll (prefixedPairs h) (assignAll (declaredPairs h) ∅)

example : declaredTrailers ((∅ : Header).insert trailer [utf8 " grpc-status,\tGRPC-message", utf8 ",x y"]) =
    [utf8 "Grpc-Status", utf8 "Grpc-Message", utf8 "x y"] := by decide

section Assign
variable {pairs : List (Bytes × List Bytes)} {key : Bytes} {values : List Bytes}

theorem lookup_assignAll_notMem (absent : key ∉ pairs.map Prod.fst) (out : Header) :
    (assignAll pairs out).lookup key = out.lookup key := by
  induction pairs generalizing out with
  | nil => rfl
  | cons pair pairs ih =>
      rw [List.map_cons, List.mem_cons, not_or] at absent
      rw [assignAll, List.foldl_cons, ← assignAll, ih absent.2, AList.lookup_insert_ne absent.1]

/-- What a map holds was assigned to it or was there before. -/
theorem lookup_assignAll_some (out : Header) (found : (assignAll pairs out).lookup key = some values) :
    (key, values) ∈ pairs ∨ out.lookup key = some values := by
  induction pairs generalizing out with
  | nil => exact .inr found
  | cons pair pairs ih =>
      rw [assignAll, List.foldl_cons, ← assignAll] at found
      rcases ih _ found with later | before
      · exact .inl (List.mem_cons_of_mem _ later)
      · by_cases here : key = pair.1
        · subst here
          rw [AList.lookup_insert] at before
          cases before
          exact .inl List.mem_cons_self
        · rw [AList.lookup_insert_ne here] at before
          exact .inr before

/-- A key that is assigned one value only holds that value. -/
theorem lookup_assignAll_mem (member : (key, values) ∈ pairs)
    (unique : ∀ others, (key, others) ∈ pairs → others = values) (out : Header) :
    (assignAll pairs out).lookup key = some values := by
  induction pairs generalizing out with
  | nil => cases member
  | cons pair pairs ih =>
      rw [assignAll, List.foldl_cons, ← assignAll]
      by_cases again : key ∈ pairs.map Prod.fst
      · obtain ⟨⟨_, others⟩, later, rfl⟩ := List.mem_map.mp again
        have same := unique others (List.mem_cons_of_mem _ later)
        subst same
        exact ih later (fun more inside => unique more (List.mem_cons_of_mem _ inside)) _
      · rcases List.mem_cons.mp member with rfl | later
        · rw [lookup_assignAll_notMem again, AList.lookup_insert]
        · exact absurd (List.mem_map_of_mem later) again

end Assign

/-- A map has one value under a key. -/
theorem entry_iff {h : Header} {key : Bytes} {values : List Bytes} :
    (⟨key, values⟩ : Sigma fun _ : Bytes => List Bytes) ∈ h.entries ↔ h.lookup key = some values :=
  AList.mem_lookup_iff.symm

/-- The initial metadata is the map without the declared names and the prefixed keys. -/
theorem splitInitial_lookup (h : Header) (key : Bytes) :
    (splitInitial h).lookup key =
      if key ∈ declaredTrailers h ∨ hasPrefix key = true then none else h.lookup key := by
  have kept : ∀ {values}, (key, values) ∈ (h.entries.filter fun entry =>
      !((declaredTrailers h).contains entry.1 || hasPrefix entry.1)).map (fun entry => (entry.1, entry.2)) ↔
        h.lookup key = some values ∧ ¬ (key ∈ declaredTrailers h ∨ hasPrefix key = true) := by
    intro values
    rw [← entry_iff, List.mem_map]
    simp only [List.mem_filter, Bool.not_eq_true', Bool.or_eq_false_iff, List.contains_eq_mem,
      decide_eq_false_iff_not, not_or, Bool.not_eq_true]
    constructor
    · rintro ⟨⟨_, _⟩, inside, same⟩
      cases same
      exact inside
    · intro inside
      exact ⟨⟨key, values⟩, inside, rfl⟩
  cases found : (splitInitial h).lookup key with
  | some values =>
      have member := (lookup_assignAll_some ∅ found).resolve_right nofun
      obtain ⟨there, plain⟩ := kept.mp member
      rw [if_neg plain, there]
  | none =>
      split
      · rfl
      · rename_i plain
        cases there : h.lookup key with
        | none => rfl
        | some values =>
            have unique : ∀ others, (key, others) ∈ _ → others = values :=
              fun others member => Option.some.inj ((kept.mp member).1.symm.trans there)
            have assigned := lookup_assignAll_mem (kept.mpr ⟨there, plain⟩) unique ∅
            cases found.symm.trans assigned

theorem mem_declaredPairs {h : Header} {name : Bytes} {values : List Bytes} :
    (name, values) ∈ declaredPairs h ↔ name ∈ declaredTrailers h ∧ h.lookup name = some values := by
  rw [declaredPairs, List.mem_filterMap]
  constructor
  · rintro ⟨other, member, same⟩
    obtain ⟨found, there, both⟩ := Option.map_eq_some_iff.mp same
    cases both
    exact ⟨member, there⟩
  · rintro ⟨member, there⟩
    exact ⟨name, member, by rw [there, Option.map_some]⟩

theorem cutPrefix_some {key name : Bytes} : cutPrefix key = some name ↔ key = trailerPrefix ++ name := by
  rw [cutPrefix, hasPrefix]
  constructor
  · intro cut
    split at cut
    · rename_i starts
      obtain ⟨rest, rfl⟩ := List.isPrefixOf_iff_prefix.mp starts
      rw [List.drop_left] at cut
      rw [Option.some.inj cut]
    · cases cut
  · rintro rfl
    rw [if_pos (List.isPrefixOf_iff_prefix.mpr (List.prefix_append _ _)), List.drop_left]

theorem mem_prefixedPairs {h : Header} {name : Bytes} {values : List Bytes} :
    (name, values) ∈ prefixedPairs h ↔
      ∃ raw, canonicalMIMEHeaderKey raw = name ∧ h.lookup (trailerPrefix ++ raw) = some values := by
  rw [prefixedPairs, List.mem_filterMap]
  constructor
  · rintro ⟨⟨key, found⟩, member, same⟩
    obtain ⟨raw, cut, both⟩ := Option.map_eq_some_iff.mp same
    cases both
    refine ⟨raw, rfl, ?_⟩
    rw [← cutPrefix_some.mp cut]
    exact entry_iff.mp member
  · rintro ⟨raw, rfl, there⟩
    refine ⟨⟨_, values⟩, entry_iff.mpr there, ?_⟩
    dsimp only
    rw [cutPrefix_some.mpr rfl, Option.map_some]

/-- Declared names and prefixed keys, in canonical form, are all different. -/
def Distinct (h : Header) : Prop := (declaredTrailers h ++ (prefixedPairs h).map Prod.fst).Nodup

instance Distinct.decidable (h : Header) : Decidable (Distinct h) :=
  inferInstanceAs (Decidable (List.Nodup _))

theorem harvest_declared {h : Header} (distinct : Distinct h) {name : Bytes} {values : List Bytes}
    (declared : name ∈ declaredTrailers h) (there : h.lookup name = some values) :
    (harvest h).lookup name = some values := by
  have apart := (List.nodup_append'.mp distinct).2.2 declared
  rw [harvest, lookup_assignAll_notMem apart]
  apply lookup_assignAll_mem (mem_declaredPairs.mpr ⟨declared, there⟩)
  intro others member
  exact Option.some.inj ((mem_declaredPairs.mp member).2.symm.trans there)

theorem harvest_prefixed {h : Header} (distinct : Distinct h) {raw : Bytes} {values : List Bytes}
    (there : h.lookup (trailerPrefix ++ raw) = some values) :
    (harvest h).lookup (canonicalMIMEHeaderKey raw) = some values := by
  have names := (List.nodup_append'.mp distinct).2.1
  have member := mem_prefixedPairs.mpr ⟨raw, rfl, there⟩
  apply lookup_assignAll_mem member
  intro others again
  exact congrArg Prod.snd (List.inj_on_of_nodup_map names again member rfl)

/-- The trailers hold nothing else. -/
theorem harvest_some {h : Header} {name : Bytes} {values : List Bytes}
    (found : (harvest h).lookup name = some values) :
    (name ∈ declaredTrailers h ∧ h.lookup name = some values) ∨
      ∃ raw, canonicalMIMEHeaderKey raw = name ∧ h.lookup (trailerPrefix ++ raw) = some values := by
  rcases lookup_assignAll_some _ found with prefixed | first
  · exact .inr (mem_prefixedPairs.mp prefixed)
  · exact .inl (mem_declaredPairs.mp ((lookup_assignAll_some ∅ first).resolve_right nofun))

end GrpcWebnext.GoDispatch
