import Mathlib.Logic.ExistsUnique
import Remap.Proofs.PageTable.Scan

/-!
# Reports describe the translation

A list of extents describes a translation if each address that is translated lies in
one extent, which takes it where the translation does. A report describes the
translation of its tree, and it does so with the fewest extents.
-/

namespace Remap.PageTable

namespace Extent

def Covers (extent : Extent) (linear : Nat) : Prop :=
  extent.start ≤ linear ∧ linear < extent.stop

def translation (extent : Extent) (linear : Nat) : Translation :=
  extent.attr.translation (linear - extent.start)

variable {extent pending : Extent} {rest : List Extent} {linear : Nat} {attr : Attribute}

theorem gives_iff : extent.Gives linear attr ↔
    extent.Covers linear ∧ attr.translation 0 = extent.translation linear := by
  simp only [Covers, translation, Attribute.translation, Translation.mk.injEq, Nat.add_zero]
  constructor
  · intro gives
    exact ⟨⟨gives.low, gives.high⟩, gives.base, gives.rights⟩
  · rintro ⟨⟨low, high⟩, base, rights⟩
    exact ⟨low, high, base, rights⟩

theorem Whole.covers_pageStart (whole : extent.Whole) :
    extent.Covers (pageStart linear) ↔ extent.Covers linear := by
  have start := whole.start
  have length := whole.length
  have aligned := pageStart_aligned linear
  have low := pageStart_le linear
  have high := lt_pageStart_add linear
  rw [Covers, Covers, stop]
  simp only [pageBytes] at *
  omega

theorem Whole.covers_last (whole : extent.Whole) : extent.Covers (extent.stop - pageBytes) ∧
    (extent.stop - pageBytes) % pageBytes = 0 := by
  have start := whole.start
  have length := whole.length
  have positive := whole.positive
  rw [Covers, stop]
  simp only [pageBytes] at *
  omega

theorem length_mergeAfter_le : (mergeAfter pending rest).length ≤ rest.length + 1 := by
  induction rest generalizing pending with
  | nil => exact Nat.le_refl _
  | cons next rest induction =>
      rw [mergeAfter]
      split
      next => exact Nat.le_succ_of_le induction
      next => exact Nat.succ_le_succ induction

theorem mergeAfter_of_length (same : (mergeAfter pending rest).length = rest.length + 1) :
    mergeAfter pending rest = pending :: rest := by
  induction rest generalizing pending with
  | nil => rfl
  | cons next rest induction =>
      rw [mergeAfter] at same ⊢
      split at same
      next =>
        have shorter : rest.length + 1 + 1 ≤ rest.length + 1 := same ▸ length_mergeAfter_le
        exact absurd shorter (Nat.not_succ_le_self _)
      next apart => rw [if_neg apart, induction (Nat.succ.inj same)]

end Extent

theorem Attribute.translation_inj {left right : Attribute}
    (same : left.translation 0 = right.translation 0) : left = right := by
  simp only [translation, Nat.add_zero, Translation.mk.injEq] at same
  exact ext_base_rights (UInt64.toNat_inj.mp same.1) same.2

/-- Every address below `limit` that is translated lies in one of the extents, which takes
it there; no other address lies in any. -/
structure Describes (translate : Nat → Option Translation) (limit : Nat)
    (extents : List Extent) : Prop where
  positive : ∀ extent ∈ extents, 0 < extent.length
  apart : extents.Pairwise fun extent next => extent.stop ≤ next.start
  inside : ∀ extent ∈ extents, extent.stop ≤ limit
  mapped : ∀ linear, linear < limit →
    ((translate linear).isSome ↔ ∃! extent, extent ∈ extents ∧ extent.Covers linear)
  translated : ∀ extent ∈ extents, ∀ linear, extent.Covers linear →
    translate linear = some (extent.translation linear)

section

variable {translate : Nat → Option Translation} {limit : Nat} {extents : List Extent}
  {extent : Extent} (describes : Describes translate limit extents) (member : extent ∈ extents)

include describes member

theorem Describes.covers_start : extent.Covers extent.start :=
  ⟨Nat.le_refl _, Nat.lt_add_of_pos_right (describes.positive extent member)⟩

theorem Describes.covers_last : extent.Covers (extent.stop - 1) := by
  have positive := describes.positive extent member
  rw [Extent.Covers, Extent.stop]
  omega

end

structure ByPages (translate : Nat → Option Translation) (limit : Nat) (pages : Pages) :
    Prop where
  aligned : limit % pageBytes = 0
  page : ∀ linear, linear < limit →
    translate linear = (pages (linear / pageBytes)).map (·.translation (linear % pageBytes))
  outside : ∀ number, limit ≤ number * pageBytes → pages number = none

theorem eq_of_covers {extents : List Extent} {linear : Nat}
    (apart : extents.Pairwise fun extent next => extent.stop ≤ next.start) {extent next : Extent}
    (member : extent ∈ extents) (listed : next ∈ extents) (covers : extent.Covers linear)
    (also : next.Covers linear) : extent = next := by
  induction extents with
  | nil => cases member
  | cons first rest induction =>
      obtain ⟨before, later⟩ := List.pairwise_cons.mp apart
      rcases List.mem_cons.mp member with rfl | inRest
      · rcases List.mem_cons.mp listed with rfl | alsoInRest
        · rfl
        · have := before next alsoInRest
          have := covers.2
          have := also.1
          omega
      · rcases List.mem_cons.mp listed with rfl | alsoInRest
        · have := before extent inRest
          have := covers.1
          have := also.2
          omega
        · exact induction later inRest alsoInRest

section ByPages

variable {translate : Nat → Option Translation} {limit : Nat} {pages : Pages}
  {extents others : List Extent} (byPages : ByPages translate limit pages)

include byPages

theorem Compacts.inside (compacts : Compacts pages extents) {extent : Extent}
    (member : extent ∈ extents) : extent.stop ≤ limit := by
  apply Nat.le_of_not_lt
  intro beyond
  have whole := compacts.ordered.whole extent member
  obtain ⟨last, aligned⟩ := whole.covers_last
  have number : (extent.stop - pageBytes) / pageBytes * pageBytes = extent.stop - pageBytes :=
    Nat.div_mul_cancel (Nat.dvd_of_mod_eq_zero aligned)
  have gives := whole.gives last.1 last.2 aligned
  rw [← number] at gives
  have given := (compacts.pages_iff _ _).mpr ⟨extent, member, gives⟩
  have outside : limit ≤ extent.stop - pageBytes := by
    have limit_aligned := byPages.aligned
    have below := last.2
    simp only [pageBytes] at *
    omega
  rw [byPages.outside _ (by rwa [number])] at given
  cases given

theorem Compacts.translated (compacts : Compacts pages extents) {extent : Extent} {linear : Nat}
    (member : extent ∈ extents) (covers : extent.Covers linear) :
    translate linear = some (extent.translation linear) := by
  have whole := compacts.ordered.whole extent member
  obtain ⟨low, high⟩ := whole.covers_pageStart.mpr covers
  have gives := whole.gives low high (pageStart_aligned linear)
  have given := (compacts.pages_iff (linear / pageBytes) _).mpr ⟨extent, member, gives⟩
  have offset : pageStart linear - extent.start + linear % pageBytes = linear - extent.start := by
    have split := pageStart_add linear
    omega
  rw [byPages.page linear (Nat.lt_of_lt_of_le covers.2 (compacts.inside byPages member)), given,
    Option.map_some, Extent.translation, Attribute.translation, Attribute.translation, gives.base,
    gives.rights, Nat.add_assoc, offset]

theorem Compacts.describes (compacts : Compacts pages extents) :
    Describes translate limit extents where
  positive extent member := (compacts.ordered.whole extent member).positive
  apart := compacts.ordered.apart
  inside extent member := compacts.inside byPages member
  translated extent member linear := compacts.translated byPages member
  mapped := by
    intro linear below
    constructor
    · intro mapped
      rw [byPages.page linear below, Option.isSome_map] at mapped
      obtain ⟨attr, given⟩ := Option.isSome_iff_exists.mp mapped
      obtain ⟨extent, member, gives⟩ := (compacts.pages_iff _ _).mp given
      have covers : extent.Covers linear :=
        (compacts.ordered.whole extent member).covers_pageStart.mp ⟨gives.low, gives.high⟩
      refine ⟨extent, ⟨member, covers⟩, ?_⟩
      rintro other ⟨listed, also⟩
      exact eq_of_covers compacts.ordered.apart listed member also covers
    · rintro ⟨extent, ⟨member, covers⟩, -⟩
      rw [compacts.translated byPages member covers]
      rfl

section

variable (describes : Describes translate limit extents) {extent : Extent} {linear : Nat}
  (member : extent ∈ extents)

include describes member

theorem Describes.page_of (covers : extent.Covers linear) :
    ∃ attr, pages (linear / pageBytes) = some attr ∧
      attr.base.toNat + linear % pageBytes =
        extent.attr.base.toNat + (linear - extent.start) := by
  have translated := describes.translated extent member linear covers
  rw [byPages.page linear (Nat.lt_of_lt_of_le covers.2 (describes.inside extent member))]
    at translated
  obtain ⟨attr, given, same⟩ := Option.map_eq_some_iff.mp translated
  exact ⟨attr, given, congrArg Translation.physical same⟩

theorem Describes.start_aligned : extent.start % pageBytes = 0 := by
  obtain ⟨attr, -, base⟩ := describes.page_of byPages member (describes.covers_start member)
  have aligned := Attribute.base_aligned attr
  have also := Attribute.base_aligned extent.attr
  simp only [pageBytes] at *
  omega

/-- An extent that stopped inside a page would leave the rest of it to an extent that starts
inside the page. -/
theorem Describes.stop_aligned : extent.stop % pageBytes = 0 := by
  apply Decidable.byContradiction
  intro unaligned
  have below : extent.stop < limit := by
    apply Nat.lt_of_le_of_ne (describes.inside extent member)
    intro same
    rw [same] at unaligned
    exact unaligned byPages.aligned
  have samePage : (extent.stop - 1) / pageBytes = extent.stop / pageBytes := by
    simp only [pageBytes] at *
    omega
  have last := describes.covers_last member
  obtain ⟨attr, given, -⟩ := describes.page_of byPages member last
  have mapped : (translate extent.stop).isSome := by
    rw [byPages.page _ below, ← samePage, given]
    rfl
  obtain ⟨next, ⟨listed, covers⟩, -⟩ := (describes.mapped _ below).mp mapped
  have early : next.Covers (extent.stop - 1) := by
    have start := describes.start_aligned byPages listed
    have low := covers.1
    have high := covers.2
    have apart : next.start ≠ extent.stop := by
      intro same
      rw [same] at start
      exact unaligned start
    constructor <;> omega
  have same := eq_of_covers describes.apart member listed last early
  subst same
  exact Nat.lt_irrefl _ covers.2

end

theorem Describes.ordered (describes : Describes translate limit extents) : Ordered extents := by
  refine ⟨?_, describes.apart⟩
  intro extent member
  have positive := describes.positive extent member
  have start := describes.start_aligned byPages member
  have stop := describes.stop_aligned byPages member
  obtain ⟨attr, -, base⟩ := describes.page_of byPages member (describes.covers_last member)
  have room := Attribute.base_lt attr
  have aligned := Attribute.base_aligned attr
  rw [Extent.stop] at *
  refine ⟨start, ?_, positive, ?_⟩ <;>
    simp only [pageBytes, spaceSize, Nat.reduceShiftLeft] at * <;>
    omega

theorem Describes.pages_iff (describes : Describes translate limit extents) (number : Nat)
    (attr : Attribute) : pages number = some attr ↔
      ∃ extent ∈ extents, extent.Gives (number * pageBytes) attr := by
  by_cases below : number * pageBytes < limit
  · have page := byPages.page _ below
    rw [Nat.mul_div_cancel _ (by decide), Nat.mul_mod_left] at page
    constructor
    · intro given
      rw [given, Option.map_some] at page
      have mapped : (translate (number * pageBytes)).isSome := by
        rw [page]
        rfl
      obtain ⟨extent, ⟨member, covers⟩, -⟩ := (describes.mapped _ below).mp mapped
      have translated := describes.translated extent member _ covers
      rw [page] at translated
      exact ⟨extent, member, Extent.gives_iff.mpr ⟨covers, Option.some.inj translated⟩⟩
    · rintro ⟨extent, member, gives⟩
      obtain ⟨covers, same⟩ := Extent.gives_iff.mp gives
      rw [describes.translated extent member _ covers, ← same] at page
      obtain ⟨other, given, also⟩ := Option.map_eq_some_iff.mp page.symm
      rw [given, Attribute.translation_inj also]
  · rw [byPages.outside number (Nat.le_of_not_lt below)]
    constructor
    · intro given
      cases given
    · rintro ⟨extent, member, gives⟩
      have := describes.inside extent member
      have := gives.high
      omega

/-- Maximal runs are the shortest description. -/
theorem Compacts.shortest (compacts : Compacts pages extents)
    (describes : Describes translate limit others) :
    extents.length ≤ others.length ∧ (others.length = extents.length → others = extents) := by
  have merged := compacts_merge (describes.ordered byPages) (describes.pages_iff byPages)
  rw [compacts.unique merged]
  cases others with
  | nil => exact ⟨Nat.le_refl _, fun _ => rfl⟩
  | cons first rest =>
      refine ⟨Extent.length_mergeAfter_le, ?_⟩
      intro same
      exact (Extent.mergeAfter_of_length same.symm).symm

end ByPages

namespace Memory

variable {memory : Memory} {mode : Mode} {root : Nat} {pieces output : List Extent}
  {cause : Error}

theorem scan_passes_iff :
    (memory.scan mode root).failure = none ↔ ¬memory.Broken mode root := by
  rw [scan, Broken]
  by_cases rooted : root = 0
  · rw [if_pos rooted]
    exact ⟨fun _ broken => broken.1 rooted, fun _ => rfl⟩
  · rw [if_neg rooted, leaves_passes_iff mode.maxLevel_ne_zero]
    constructor
    · rintro resolves ⟨-, lower, target, cause, leads, failed⟩
      obtain ⟨table, found⟩ := resolves lower target leads
      rw [found] at failed
      cases failed
    · intro sturdy lower target leads
      cases found : memory.table target with
      | ok table => exact ⟨table, rfl⟩
      | error cause => exact absurd ⟨rooted, lower, target, cause, leads, found⟩ sturdy

theorem scan_stopped (stopped : (memory.scan mode root).failure = some cause) :
    ∃ misuse, cause = .invalidParameter misuse := by
  rw [scan] at stopped
  split at stopped
  next => cases stopped
  next => exact leaves_stopped stopped

def pages (memory : Memory) (mode : Mode) (root : Nat) : Pages := fun number =>
  if root ≠ 0 ∧ number * pageBytes < mode.linearLimit then
    memory.pageBelow mode.maxLevel root .permissive (number * pageBytes)
  else none

theorem byPages : ByPages (memory.translate mode root) mode.linearLimit
    (memory.pages mode root) where
  aligned := by
    rw [Mode.linearLimit_eq]
    exact levelSize_aligned _
  page := by
    intro linear below
    have low : linear / pageBytes * pageBytes < mode.linearLimit :=
      Nat.lt_of_le_of_lt (pageStart_le linear) below
    rw [translate, pages]
    by_cases rooted : root = 0
    · rw [if_pos rooted, if_neg (fun both => both.1 rooted), Option.map_none]
    · rw [if_neg rooted, if_pos ⟨rooted, low⟩, translateBelow_eq, pageStart]
  outside := by
    intro number outside
    rw [pages, if_neg]
    rintro ⟨-, inside⟩
    omega

theorem scan_compacts (passes : (memory.scan mode root).failure = none) :
    Compacts (memory.pages mode root) (Extent.merge (memory.scan mode root).found) := by
  rw [scan] at passes ⊢
  by_cases rooted : root = 0
  · rw [if_pos rooted]
    apply compacts_merge ⟨fun piece member => absurd member List.not_mem_nil, .nil⟩
    intro number attr
    rw [pages, if_neg (fun both => both.1 rooted)]
    simp
  · rw [if_neg rooted] at passes ⊢
    have found := leaves_pieces mode.maxLevel_ne_zero (Nat.zero_mod _) Attribute.grants_permissive
      passes
    rw [Nat.zero_add, ← Mode.linearLimit_eq] at found
    apply compacts_merge found.ordered
    intro number attr
    rw [pages]
    by_cases inside : number * pageBytes < mode.linearLimit
    · rw [if_pos ⟨rooted, inside⟩]
      exact found.gives _ attr (Nat.zero_le _) inside (Nat.mul_mod_left _ _)
    · rw [if_neg (fun both => inside both.2)]
      constructor
      · intro given
        cases given
      · rintro ⟨piece, member, gives⟩
        have := (found.inside piece member).2
        have := gives.high
        omega

theorem report_stopped (supported : mode.isSupported = true)
    (stopped : (memory.scan mode root).failure = some cause) :
    (memory.report mode root output).1 = .error cause := by
  rw [report, if_neg (by simp [supported])]
  dsimp only
  rw [stopped]

theorem report_passed (supported : mode.isSupported = true)
    (passes : (memory.scan mode root).failure = none) :
    memory.report mode root output =
      let extents := Extent.merge (memory.scan mode root).found
      if output.length < extents.length then
        (.error (.tooSmall extents.length), extents.take output.length)
      else
        (.ok extents.length, extents ++ output.drop extents.length) := by
  rw [report, if_neg (by simp [supported])]
  dsimp only
  rw [passes]
  dsimp only
  split
  next short => rw [List.drop_of_length_le (Nat.le_of_lt short), List.append_nil]
  next room => rw [List.take_of_length_le (Nat.le_of_not_lt room)]

/-- Reading a tree fails if and only if one of its pointers leads nowhere. Otherwise the
extents that are reported describe what the tree translates, no extent goes on where another
ends, and no other description is as short. -/
theorem report_translates (memory : Memory) (mode : Mode) (root : Nat)
    (supported : mode.isSupported = true) :
    (∀ output, (∃ cause, (memory.report mode root output).1 = .error (.invalidParameter cause)) ↔
      memory.Broken mode root) ∧
    (¬memory.Broken mode root → ∃ extents,
      Describes (memory.translate mode root) mode.linearLimit extents ∧
      (∀ extent ∈ extents, ∀ next ∈ extents, extent.meets next = false) ∧
      (∀ others, Describes (memory.translate mode root) mode.linearLimit others →
        extents.length ≤ others.length ∧ (others.length = extents.length → others = extents)) ∧
      ∀ output : List Extent, memory.report mode root output =
        if output.length < extents.length then
          (.error (.tooSmall extents.length), extents.take output.length)
        else
          (.ok extents.length, extents ++ output.drop extents.length)) := by
  constructor
  · intro output
    cases outcome : (memory.scan mode root).failure with
    | none =>
        have sturdy := scan_passes_iff.mp outcome
        refine ⟨?_, fun broken => absurd broken sturdy⟩
        rintro ⟨cause, failed⟩
        rw [report_passed supported outcome] at failed
        dsimp only at failed
        split at failed <;> cases failed
    | some cause =>
        have broken : memory.Broken mode root := by
          apply Classical.byContradiction
          intro sturdy
          rw [scan_passes_iff.mpr sturdy] at outcome
          cases outcome
        refine ⟨fun _ => broken, fun _ => ?_⟩
        rw [report_stopped supported outcome]
        obtain ⟨misuse, rfl⟩ := scan_stopped outcome
        exact ⟨misuse, rfl⟩
  · intro sturdy
    have passes := scan_passes_iff.mpr sturdy
    have compacts := scan_compacts passes
    refine ⟨_, compacts.describes byPages, ?_, ?_, fun output => report_passed supported passes⟩
    · intro extent member next listed
      exact Bool.eq_false_iff.mpr fun meets =>
        compacts.maximal extent member next listed (Extent.continues_iff.mpr meets)
    · intro others describes
      exact compacts.shortest byPages describes

def recursive : Memory := ⟨#[Table.blank.setWord ⟨0, by decide⟩ 0x100007]⟩

theorem recursive_has : recursive.Has 0x100000 := ⟨by decide, by decide, by decide⟩

theorem recursive_view : recursive.view 0x100000 = Table.blank.setWord ⟨0, by decide⟩ 0x100007 :=
  rfl

theorem recursive_leads {level address lower target : Nat}
    (leads : recursive.Leads level address lower target) (here : address = 0x100000) :
    target = 0x100000 := by
  induction leads with
  | self => exact here
  | @step level address lower target table index child attr found pointer onward induction =>
      subst here
      obtain ⟨-, rfl⟩ := table_ok found
      rw [recursive_view] at pointer
      apply induction
      by_cases first : index = ⟨0, by decide⟩
      · subst first
        rw [Table.word_setWord_same, Entry.decode, if_neg (by decide)] at pointer
        split at pointer
        next => cases pointer
        next =>
          rw [if_neg (fun large => absurd large.2 (by decide))] at pointer
          cases pointer
          rfl
      · rw [Table.word_setWord_other first, Table.word_blank, Entry.decode_zero] at pointer
        cases pointer

theorem report_translates_recursive :
    recursive.translate (.fourLevel .page1G) 0x100000 0x123 = some ⟨0x100123, 7⟩ ∧
      ∃ extents, Describes (recursive.translate (.fourLevel .page1G) 0x100000)
        (Mode.fourLevel .page1G).linearLimit extents ∧
        recursive.report (.fourLevel .page1G) 0x100000 (List.replicate extents.length .empty) =
          (.ok extents.length, extents) := by
  have sturdy : ¬recursive.Broken (.fourLevel .page1G) 0x100000 := by
    rintro ⟨-, lower, target, cause, leads, failed⟩
    rw [recursive_leads leads rfl, recursive_has.table_eq] at failed
    cases failed
  obtain ⟨-, described⟩ := report_translates recursive (.fourLevel .page1G) 0x100000 rfl
  obtain ⟨extents, describes, -, -, reported⟩ := described sturdy
  refine ⟨by decide +kernel, extents, describes, ?_⟩
  rw [reported, List.length_replicate, if_neg (Nat.lt_irrefl _),
    List.drop_of_length_le (Nat.le_of_eq List.length_replicate), List.append_nil]

end Memory

end Remap.PageTable
