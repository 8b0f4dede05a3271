import GrpcWebnext.Library.DepthFirst
import GrpcWebnext.Library.Framing
import GrpcWebnext.Library.Utf8
import Mathlib.Data.List.AList
import Mathlib.Data.List.Lex
import Mathlib.Data.List.Sort

/-! The order in which reflected files go to the descriptor pool. -/
namespace GrpcWebnext.Reflect
open Framing (Bytes)
open Text (Str)

/-- A file as the server sent it, and the names it depends on. -/
structure RawFile where
  bytes : Bytes
  deps : List Str
deriving DecidableEq

/-- The files under their names, in the order a hash map happens to walk them. -/
abbrev FileMap := AList fun _ : Str => RawFile

/-- The nodes of the dependency graph are the files of the map. -/
def FileMap.next (files : FileMap) (name : Str) : Option (List Str) :=
  (files.lookup name).map RawFile.deps

structure Walk where
  seen : List Str
  out : List Bytes

/-- How many files of the map the walk has still to see. -/
def unseen (files : FileMap) (seen : List Str) : Nat :=
  (files.keys.filter fun name => !seen.contains name).length

theorem unseen_mono (files : FileMap) {seen more : List Str} (sub : seen ⊆ more) :
    unseen files more ≤ unseen files seen := by
  apply List.Sublist.length_le
  apply List.monotone_filter_right
  intro name fresh
  rw [Bool.not_eq_true', List.contains_eq_mem, decide_eq_false_iff_not] at fresh ⊢
  exact fun known => fresh (sub known)

theorem unseen_lt {files : FileMap} {seen : List Str} {name : Str} {file : RawFile}
    (found : files.lookup name = some file) (fresh : name ∉ seen) :
    unseen files (name :: seen) < unseen files seen := by
  have present : name ∈ files.keys.filter fun other => !seen.contains other := by
    rw [List.mem_filter, Bool.not_eq_true', List.contains_eq_mem, decide_eq_false_iff_not, ← AList.mem_keys,
      ← AList.lookup_isSome, found]
    exact ⟨rfl, fresh⟩
  have split : (files.keys.filter fun other => !(name :: seen).contains other) =
      (files.keys.filter fun other => !seen.contains other).filter (· ≠ name) := by
    rw [List.filter_filter]
    congr 1
    funext other
    simp only [List.contains_eq_mem, List.mem_cons, Bool.decide_or, Bool.not_or, ne_eq, decide_not]
  rw [unseen, split, unseen]
  refine List.length_filter_lt_length_iff_exists.mpr ⟨name, present, ?_⟩
  simp only [ne_eq, not_true_eq_false, decide_false, Bool.false_eq_true, not_false_eq_true]

mutual
/-- A walk never forgets a name, so it runs out of unseen files. -/
def visit (files : FileMap) (name : Str) (walk : Walk) : { after : Walk // walk.seen ⊆ after.seen } :=
  if _known : walk.seen.contains name then ⟨walk, List.Subset.refl _⟩
  else match _found : files.lookup name with
    | none => ⟨{ walk with seen := name :: walk.seen }, List.subset_cons_self _ _⟩
    | some file =>
        let inner := visitAll files file.deps { walk with seen := name :: walk.seen }
        ⟨{ inner.val with out := inner.val.out ++ [file.bytes] },
          List.Subset.trans (List.subset_cons_self _ _) inner.property⟩
termination_by (unseen files walk.seen, 0)
decreasing_by exact Prod.Lex.left _ _ (unseen_lt _found (mt List.contains_iff_mem.mpr _known))

def visitAll (files : FileMap) (names : List Str) (walk : Walk) :
    { after : Walk // walk.seen ⊆ after.seen } :=
  match names with
  | [] => ⟨walk, List.Subset.refl _⟩
  | name :: names =>
      let first := visit files name walk
      let rest := visitAll files names first.val
      ⟨rest.val, List.Subset.trans first.property rest.property⟩
termination_by (unseen files walk.seen, names.length + 1)
decreasing_by
  · exact Prod.Lex.right _ (Nat.succ_pos _)
  · rcases Nat.lt_or_eq_of_le (unseen_mono files first.property) with fewer | same
    · exact Prod.Lex.left _ _ fewer
    · rw [same]
      exact Prod.Lex.right _ (Nat.lt_succ_self _)
end

/-- Strings in the order of their bytes. -/
def byteLe (a b : Str) : Prop :=
  (Utf8.encode a).map UInt8.toNat ≤ (Utf8.encode b).map UInt8.toNat

instance byteLe.decidable : DecidableRel byteLe := fun _ _ => inferInstanceAs (Decidable (_ ≤ _))

def topoSort (files : FileMap) : List Bytes :=
  (visitAll files (files.keys.insertionSort byteLe) ⟨[], []⟩).val.out

theorem byteLe_antisymm {a b : Str} (below : byteLe a b) (above : byteLe b a) : a = b := by
  apply Utf8.encode_injective
  apply List.map_injective_iff.mpr (fun _ _ same => UInt8.toNat_inj.mp same)
  exact le_antisymm below above

instance byteLe.total : Std.Total byteLe := ⟨fun _ _ => le_total _ _⟩

instance byteLe.trans : IsTrans Str byteLe := ⟨fun _ _ _ first second => le_trans first second⟩

/-- Sorting forgets the order that the names came in. -/
theorem sorted_perm {names others : List Str} (perm : names.Perm others) :
    names.insertionSort byteLe = others.insertionSort byteLe := by
  have same : (names.insertionSort byteLe).Perm (others.insertionSort byteLe) :=
    (List.perm_insertionSort byteLe names).trans (perm.trans (List.perm_insertionSort byteLe others).symm)
  apply same.eq_of_pairwise
  · intro a b _ _ below above
    exact byteLe_antisymm below above
  · exact List.pairwise_insertionSort byteLe names
  · exact List.pairwise_insertionSort byteLe others

def FileMap.bytesOf (files : FileMap) (name : Str) : Option Bytes :=
  (files.lookup name).map RawFile.bytes

/-- A walk that sees some names and puts out the bytes of the files it finishes. -/
def Walk.Follows (files : FileMap) (names : List Str) (walk after : Walk) : Prop :=
  ∃ order, DepthFirst.Visits files.next walk.seen names after.seen order ∧
    after.out = walk.out ++ order.filterMap files.bytesOf

theorem Walk.Follows.cons {files : FileMap} {name : Str} {names : List Str} {walk middle after : Walk}
    (first : Walk.Follows files [name] walk middle) (rest : Walk.Follows files names middle after) :
    Walk.Follows files (name :: names) walk after := by
  obtain ⟨seen, out⟩ := middle
  obtain ⟨below, walked, put⟩ := first
  obtain ⟨order, later, putLater⟩ := rest
  dsimp only at walked put later putLater
  cases walked with
  | again known done =>
      cases done
      exact ⟨order, .again known later, by rw [putLater, put, List.filterMap_nil, List.append_nil]⟩
  | absent fresh none done =>
      cases done
      exact ⟨order, .absent fresh none later, by rw [putLater, put, List.filterMap_nil, List.append_nil]⟩
  | node fresh some under done =>
      cases done
      refine ⟨_, .node fresh some under later, ?_⟩
      rw [putLater, put, List.append_assoc, ← List.filterMap_append, List.append_assoc]
      rfl

mutual
theorem visit_follows (files : FileMap) (name : Str) (walk : Walk) :
    Walk.Follows files [name] walk (visit files name walk).val := by
  rw [visit]
  split
  · rename_i known
    exact ⟨[], .again (List.contains_iff_mem.mp known) .nil, (List.append_nil _).symm⟩
  · rename_i new
    have fresh : name ∉ walk.seen := mt List.contains_iff_mem.mpr new
    split
    · rename_i absent
      have none : files.next name = none := by rw [FileMap.next, absent, Option.map_none]
      exact ⟨[], .absent fresh none .nil, (List.append_nil _).symm⟩
    · rename_i file found
      have some : files.next name = some file.deps := by rw [FileMap.next, found, Option.map_some]
      obtain ⟨below, under, put⟩ :=
        visitAll_follows files file.deps { walk with seen := name :: walk.seen }
      have bytes : files.bytesOf name = .some file.bytes := by
        rw [FileMap.bytesOf, found, Option.map_some]
      refine ⟨below ++ [name], .node fresh some under .nil, ?_⟩
      dsimp only
      rw [put, List.filterMap_append, List.filterMap_cons_some bytes, List.filterMap_nil,
        List.append_assoc]
termination_by (unseen files walk.seen, 0)
decreasing_by exact Prod.Lex.left _ _ (unseen_lt ‹_› ‹_›)

theorem visitAll_follows (files : FileMap) (names : List Str) (walk : Walk) :
    Walk.Follows files names walk (visitAll files names walk).val := by
  cases names with
  | nil =>
      rw [visitAll]
      exact ⟨[], .nil, (List.append_nil _).symm⟩
  | cons name names =>
      rw [visitAll]
      exact (visit_follows files name walk).cons (visitAll_follows files names _)
termination_by (unseen files walk.seen, names.length + 1)
decreasing_by
  · exact Prod.Lex.right _ (Nat.succ_pos _)
  · rcases Nat.lt_or_eq_of_le (unseen_mono files (visit files name walk).property) with fewer | same
    · exact Prod.Lex.left _ _ fewer
    · rw [same]
      exact Prod.Lex.right _ (Nat.lt_succ_self _)
end

/-- What `topo_sort` walks, and what it puts out. -/
theorem topoSort_visits (files : FileMap) : ∃ after order,
    DepthFirst.Visits files.next [] (files.keys.insertionSort byteLe) after order ∧
      topoSort files = order.filterMap files.bytesOf := by
  obtain ⟨order, walked, put⟩ := visitAll_follows files (files.keys.insertionSort byteLe) ⟨[], []⟩
  exact ⟨_, order, walked, put⟩

/-- A file of the map depends on another file of the map. -/
def FileMap.DependsOn (files : FileMap) (name dep : Str) : Prop :=
  ∃ file, files.lookup name = some file ∧ dep ∈ file.deps ∧ dep ∈ files

theorem next_isSome {files : FileMap} {name : Str} : (files.next name).isSome ↔ name ∈ files := by
  rw [FileMap.next, Option.isSome_map, AList.lookup_isSome]

theorem leads_eq (files : FileMap) : DepthFirst.Leads files.next = files.DependsOn := by
  funext name dep
  apply propext
  constructor
  · rintro ⟨inner, some, member, isNode⟩
    obtain ⟨file, found, rfl⟩ := Option.map_eq_some_iff.mp some
    exact ⟨file, found, member, next_isSome.mp isNode⟩
  · rintro ⟨file, found, member, present⟩
    exact ⟨file.deps, Option.map_eq_some_iff.mpr ⟨file, found, rfl⟩, member, next_isSome.mpr present⟩

/-- The walk finishes the files of the map, each once. -/
theorem order_perm {files : FileMap} {after order : List Str}
    (walk : DepthFirst.Visits files.next [] (files.keys.insertionSort byteLe) after order) :
    order.Perm files.keys := by
  apply (List.perm_ext_iff_of_nodup walk.nodup files.keys_nodup).mpr
  intro name
  rw [walk.mem_order, next_isSome, ← AList.mem_keys]
  constructor
  · exact And.right
  · intro present
    refine ⟨walk.covers ?_, present⟩
    exact (List.mem_insertionSort byteLe).mpr (AList.mem_keys.mp present)

theorem filterMap_bytesOf {files : FileMap} {names : List Str} (present : ∀ name ∈ names, name ∈ files) :
    (names.filterMap files.bytesOf).map some = names.map files.bytesOf := by
  induction names with
  | nil => rfl
  | cons name names ih =>
      obtain ⟨here, later⟩ := List.forall_mem_cons.mp present
      obtain ⟨file, found⟩ := Option.isSome_iff_exists.mp (AList.lookup_isSome.mpr here)
      have bytes : files.bytesOf name = some file.bytes := by
        rw [FileMap.bytesOf, found, Option.map_some]
      rw [List.filterMap_cons_some bytes, List.map_cons, List.map_cons, ih later, bytes]

/-- The order is one of the files of the map, each once; without cycles a file stands
behind its dependencies in the map; and another order of the map gives the same bytes. -/
theorem topoSort_ordered (files : FileMap) :
    (∃ names : List Str, names.Perm files.keys ∧
      (topoSort files).map some = names.map files.bytesOf ∧
      ((∀ name, ¬ Relation.TransGen files.DependsOn name name) →
        ∀ front name back, names = front ++ name :: back →
          ∀ dep, files.DependsOn name dep → dep ∈ front)) ∧
    ∀ other : FileMap, other.entries.Perm files.entries → topoSort other = topoSort files := by
  obtain ⟨after, names, walk, put⟩ := topoSort_visits files
  constructor
  · have perm := order_perm walk
    refine ⟨names, perm, ?_, ?_⟩
    · rw [put]
      exact filterMap_bytesOf fun name member => AList.mem_keys.mpr (perm.mem_iff.mp member)
    · rintro acyclic front name back rfl dep depends
      rw [← leads_eq] at acyclic depends
      have nothing : DepthFirst.Active files.next [] [] (files.keys.insertionSort byteLe) := by
        intro x known
        cases known
      exact (walk.ready acyclic [] nothing).before depends
  · intro other perm
    obtain ⟨after', names', walk', put'⟩ := topoSort_visits other
    have look : ∀ name, other.lookup name = files.lookup name := fun name => AList.perm_lookup perm
    have next : other.next = files.next := by
      funext name
      rw [FileMap.next, FileMap.next, look]
    have bytes : other.bytesOf = files.bytesOf := by
      funext name
      rw [FileMap.bytesOf, FileMap.bytesOf, look]
    have keys : other.keys.Perm files.keys := perm.map Sigma.fst
    rw [next, sorted_perm keys] at walk'
    obtain ⟨-, rfl⟩ := walk.det walk'
    rw [put, put', bytes]

end GrpcWebnext.Reflect
