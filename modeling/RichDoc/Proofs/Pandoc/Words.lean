import Mathlib.Data.List.Forall2
import Mathlib.Data.List.SplitBy
import RichDoc.Pandoc.Words

/-!
# Words and breaks

Running text is cut into maximal runs, so the inlines of a text are those
of its two halves if no run goes on over the cut. At the ends of a text
there is nothing to go on, and inside it a run ends where a word and
breaks meet (`MeetsBreak`).

What the runs are follows from the text alone: there is one way to take it
apart into words and breaks by turns (`runs_eq_iff`). Each inline stands
for a piece of the text (`Inline.StandsFor`), a word for itself, and a
space and a soft break for breaks without a line feed and with one. So the
inlines of a text are the one list in which words and breaks take turns
and which stands for the whole of it (`ofText_eq_iff_spells`).
-/

namespace RichDoc.Pandoc

/-! ## Text that is cut -/

/-- No run goes on over the cut: one of the halves is empty, or just one of the characters at the
cut is a break. -/
def MeetsBreak (left right : String) : Prop :=
  left = "" ∨ right = "" ∨
    ∃ a b, left.toList.getLast? = some a ∧ right.toList.head? = some b ∧ isBreak a ≠ isBreak b

variable {left right : String}

theorem MeetsBreak.isBreak_beq (h : MeetsBreak left right) :
    ∀ a ∈ left.toList.getLast?, ∀ b ∈ right.toList.head?, (isBreak a == isBreak b) = false := by
  intro a ha b hb
  rcases h with rfl | rfl | ⟨a', b', ha', hb', hne⟩
  · simp at ha
  · simp at hb
  · obtain rfl := Option.mem_unique ha ha'
    obtain rfl := Option.mem_unique hb hb'
    exact beq_eq_false_iff_ne.mpr hne

/-- Text that is cut where a word and breaks meet has the inlines of its halves. -/
theorem ofText_append (h : MeetsBreak left right) :
    Inline.ofText (left ++ right) = Inline.ofText left ++ Inline.ofText right := by
  rw [Inline.ofText, runs, String.toList_append, List.splitBy_append h.isBreak_beq, List.map_append]
  rfl

/-- A word that is cut becomes two. -/
example : runs "a bc".toList = [['a'], [' '], ['b', 'c']] ∧
    runs "a b".toList ++ runs "c".toList = [['a'], [' '], ['b'], ['c']] := by
  decide

/-! ## Runs of one kind -/

variable {run next : List Char} {kind nextKind : Bool}

/-- Some characters, which are all breaks or all none. -/
structure IsRun (kind : Bool) (run : List Char) : Prop where
  ne_nil : run ≠ []
  isBreak_eq : ∀ c ∈ run, isBreak c = kind

/-- Being of one kind is said of neighbours, where runs are cut, and then holds of all. -/
theorem exists_isRun_iff :
    (∃ kind, IsRun kind run) ↔
      run ≠ [] ∧ run.IsChain fun a b => (isBreak a == isBreak b) = true := by
  have hsame : (run.IsChain fun a b => (isBreak a == isBreak b) = true) ↔
      (run.map isBreak).IsChain (· = ·) := by
    simp only [List.isChain_map, beq_iff_eq]
  rw [hsame, List.isChain_iff_pairwise, List.pairwise_map]
  constructor
  · rintro ⟨kind, hne, hkind⟩
    exact ⟨hne, List.pairwise_of_forall_mem_list fun a ha b hb =>
      (hkind a ha).trans (hkind b hb).symm⟩
  · rintro ⟨hne, hpairwise⟩
    cases run with
    | nil => exact absurd rfl hne
    | cons first rest =>
        refine ⟨isBreak first, hne, ?_⟩
        simpa using fun c hc => (List.rel_of_pairwise_cons hpairwise hc).symm

theorem IsRun.ofRun_word (h : IsRun false run) : Inline.ofRun run = .str (String.ofList run) := by
  have hany : run.any isBreak = false := by simpa using h.isBreak_eq
  rw [Inline.ofRun, hany]
  rfl

theorem IsRun.ofRun_breaks (h : IsRun true run) :
    Inline.ofRun run = if '\n' ∈ run then .softBreak else .space := by
  obtain ⟨c, hc⟩ := List.exists_mem_of_ne_nil run h.ne_nil
  have hany : run.any isBreak = true := List.any_eq_true.mpr ⟨c, hc, h.isBreak_eq c hc⟩
  rw [Inline.ofRun, if_pos hany]
  simp only [List.contains_iff_mem]

/-- Whether the inline is a word. -/
def Inline.isWord : Inline → Bool
  | .str _ => true
  | _ => false

theorem IsRun.isWord_ofRun (h : IsRun kind run) : (Inline.ofRun run).isWord = !kind := by
  cases kind with
  | false => rw [h.ofRun_word]; rfl
  | true => rw [h.ofRun_breaks]; split <;> rfl

/-- A run ends in front of the next one just if one of them is a word and the other breaks. -/
theorem IsRun.parted_iff (h : IsRun kind run) (hnext : IsRun nextKind next) :
    (∃ ha hb, (isBreak (run.getLast ha) == isBreak (next.head hb)) = false) ↔
      (Inline.ofRun run).isWord ≠ (Inline.ofRun next).isWord := by
  have hlast : isBreak (run.getLast h.ne_nil) = kind := h.isBreak_eq _ (List.getLast_mem _)
  have hfirst : isBreak (next.head hnext.ne_nil) = nextKind :=
    hnext.isBreak_eq _ (List.head_mem _)
  rw [h.isWord_ofRun, hnext.isWord_ofRun]
  simp [h.ne_nil, hnext.ne_nil, hlast, hfirst]

/-- The runs of a text are the one way to take it apart into words and breaks by turns. -/
theorem runs_eq_iff {cs : List Char} {parts : List (List Char)} :
    runs cs = parts ↔ cs = parts.flatten ∧ (∀ run ∈ parts, ∃ kind, IsRun kind run) ∧
      parts.IsChain fun run next =>
        (Inline.ofRun run).isWord ≠ (Inline.ofRun next).isWord := by
  have hkinds : ([] ∉ parts ∧
      ∀ run ∈ parts, run.IsChain fun a b => (isBreak a == isBreak b) = true) ↔
      ∀ run ∈ parts, ∃ kind, IsRun kind run := by
    simp only [exists_isRun_iff, forall_and, List.forall_mem_ne']
  rw [runs, List.splitBy_eq_iff, ← and_assoc (a := [] ∉ parts), hkinds]
  refine and_congr_right fun _ => and_congr_right fun hkinds => ?_
  refine List.IsChain.iff_of_mem_imp fun run next hrun hnext => ?_
  obtain ⟨kind, hkind⟩ := hkinds run hrun
  obtain ⟨nextKind, hnextKind⟩ := hkinds next hnext
  exact hkind.parted_iff hnextKind

/-! ## What inlines stand for -/

variable {inline : Inline} {piece : String}

/-- The characters that break words. -/
def breaks : List Char := [' ', '\t', '\r', '\n']

theorem isBreak_iff_mem_breaks {c : Char} : isBreak c = true ↔ c ∈ breaks := by
  simp [isBreak, breaks, or_assoc]

theorem isBreak_eq_false_iff {c : Char} : isBreak c = false ↔ c ∉ breaks := by
  rw [← isBreak_iff_mem_breaks, Bool.not_eq_true]

/-- The inline stands for a piece of text: a word for itself, a space for breaks without a line
feed, and a soft break for breaks with one. -/
inductive Inline.StandsFor : Inline → String → Prop where
  | word {word : String} (hne : word ≠ "") (hword : ∀ c ∈ word.toList, c ∉ breaks) :
      StandsFor (.str word) word
  | space {gap : String} (hne : gap ≠ "") (hbreaks : ∀ c ∈ gap.toList, c ∈ breaks)
      (hline : '\n' ∉ gap.toList) : StandsFor .space gap
  | softBreak {gap : String} (hbreaks : ∀ c ∈ gap.toList, c ∈ breaks)
      (hline : '\n' ∈ gap.toList) : StandsFor .softBreak gap

/-- An inline stands for a piece just if that is one run, and the inline that of the run. -/
theorem Inline.standsFor_iff :
    inline.StandsFor piece ↔
      (∃ kind, IsRun kind piece.toList) ∧ Inline.ofRun piece.toList = inline := by
  constructor
  · rintro (⟨hne, hword⟩ | ⟨hne, hbreaks, hline⟩ | ⟨hbreaks, hline⟩)
    · have hrun : IsRun false piece.toList :=
        ⟨by simpa using hne, fun c hc => isBreak_eq_false_iff.mpr (hword c hc)⟩
      exact ⟨⟨_, hrun⟩, by rw [hrun.ofRun_word, String.ofList_toList]⟩
    · have hrun : IsRun true piece.toList :=
        ⟨by simpa using hne, fun c hc => isBreak_iff_mem_breaks.mpr (hbreaks c hc)⟩
      exact ⟨⟨_, hrun⟩, by rw [hrun.ofRun_breaks, if_neg hline]⟩
    · have hrun : IsRun true piece.toList :=
        ⟨List.ne_nil_of_mem hline, fun c hc => isBreak_iff_mem_breaks.mpr (hbreaks c hc)⟩
      exact ⟨⟨_, hrun⟩, by rw [hrun.ofRun_breaks, if_pos hline]⟩
  · rintro ⟨⟨kind, hrun⟩, rfl⟩
    have hne : piece ≠ "" := by simpa using hrun.ne_nil
    cases kind with
    | false =>
        rw [hrun.ofRun_word, String.ofList_toList]
        exact .word hne fun c hc => isBreak_eq_false_iff.mp (hrun.isBreak_eq c hc)
    | true =>
        have hbreaks : ∀ c ∈ piece.toList, c ∈ breaks :=
          fun c hc => isBreak_iff_mem_breaks.mp (hrun.isBreak_eq c hc)
        rw [hrun.ofRun_breaks]
        split
        · next hline => exact .softBreak hbreaks hline
        · next hline => exact .space hne hbreaks hline

variable {inlines : List Inline}

/-- Pieces that a list of inlines stands for are runs, and the inlines are those of the runs. -/
theorem forall₂_standsFor_iff {pieces : List String} :
    List.Forall₂ Inline.StandsFor inlines pieces ↔
      (∀ piece ∈ pieces, ∃ kind, IsRun kind piece.toList) ∧
        pieces.map (fun piece => Inline.ofRun piece.toList) = inlines := by
  constructor
  · intro h
    induction h with
    | nil => simp
    | cons hstands _ ih =>
        obtain ⟨hkind, rfl⟩ := Inline.standsFor_iff.mp hstands
        obtain ⟨hkinds, rfl⟩ := ih
        exact ⟨List.forall_mem_cons.mpr ⟨hkind, hkinds⟩, rfl⟩
  · rintro ⟨hkinds, rfl⟩
    rw [List.forall₂_map_left_iff, List.forall₂_same]
    exact fun piece hpiece => Inline.standsFor_iff.mpr ⟨hkinds piece hpiece, rfl⟩

/-- Words and breaks take turns, and what they stand for, one piece after the other, is the text. -/
structure Spells (inlines : List Inline) (text : String) : Prop where
  alternate : inlines.IsChain fun inline next => inline.isWord ≠ next.isWord
  pieces : ∃ pieces, List.Forall₂ Inline.StandsFor inlines pieces ∧ String.join pieces = text

/-- The inlines of running text are the one list in which words and breaks take turns and which
stands for the whole text. -/
theorem ofText_eq_iff_spells {text : String} :
    Inline.ofText text = inlines ↔ Spells inlines text := by
  constructor
  · rintro rfl
    -- The runs themselves are the pieces.
    obtain ⟨hflatten, hkinds, halternate⟩ := runs_eq_iff.mp (rfl : runs text.toList = _)
    refine ⟨(List.isChain_map _).mpr halternate, (runs text.toList).map String.ofList, ?_, ?_⟩
    · refine forall₂_standsFor_iff.mpr ⟨?_, ?_⟩
      · simpa using hkinds
      · simp [Inline.ofText]
    · rw [← String.toList_inj, String.toList_join, List.flatMap_map]
      simpa using hflatten.symm
  · rintro ⟨halternate, pieces, hpieces, rfl⟩
    -- Other pieces would be another way to take the text apart by turns.
    obtain ⟨hkinds, rfl⟩ := forall₂_standsFor_iff.mp hpieces
    have hruns : runs (String.join pieces).toList = pieces.map String.toList := by
      refine runs_eq_iff.mpr ⟨?_, ?_, ?_⟩
      · rw [String.toList_join, List.flatMap_def]
      · simpa using hkinds
      · simpa only [List.isChain_map] using halternate
    rw [Inline.ofText, hruns, List.map_map]
    rfl

/-- A non-breaking space is part of a word, and a line feed anywhere in a gap decides. -/
example : Inline.ofText " Hello \t big\u00a0world\r\n next" =
    [.space, .str "Hello", .space, .str "big\u00a0world", .softBreak, .str "next"] := by
  rfl

end RichDoc.Pandoc
