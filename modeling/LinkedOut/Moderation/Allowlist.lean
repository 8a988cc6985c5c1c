/-
  What the allowlist of `find_probable_names` excuses.

  A phrase is looked for as a substring of the lower-cased run, so it is found wherever one
  word of the run ends with its first word, its inner words follow, and the next word starts
  with its last (`spelled_part_iff`): "Agnew Yorke" is passed over for "new york".
  `allowlist_whole_words_iff`: only runs with a phrase as whole words are left out, exactly
  when no run of at most three words has phrases in it only in this way.
-/
import LinkedOut.Moderation.ProbableNames

namespace LinkedOut

open Regex

/-! ## Words and gaps -/

/-- Words without whitespace, each behind whitespace. -/
def WordsApart (rest : List (List Char × List Char)) : Prop :=
  ∀ p ∈ rest, Gap p.1 ∧ p.2 ≠ [] ∧ ∀ c ∈ p.2, isSpace c = false

/-- The phrase of these words, with a space between. -/
def spelled (words : List (List Char)) : List Char := [' '].intercalate words

/-- In the run stands a word that ends with the phrase's first word, then its inner words, then
    a word that starts with its last, each behind one space. -/
def Across (phrase : List (List Char)) (run : List (List Char × List Char)) : Prop :=
  ∃ r₁ g x p inner q y r₂, phrase = p :: (inner ++ [q]) ∧
    run = r₁ ++ (g, x ++ p) :: (inner.map (Prod.mk [' ']) ++ ([' '], q ++ y) :: r₂)

theorem spelled_cons (p : List Char) (words : List (List Char)) :
    spelled (p :: words) = p ++ joined (words.map (Prod.mk [' '])) := by
  induction words generalizing p with
  | nil => simp [spelled]
  | cons w words ih =>
    have hw := ih w
    rw [spelled] at hw ⊢
    rw [List.intercalate_cons_cons, hw]
    simp

theorem WordsApart.cons {g w : List Char} {rest : List (List Char × List Char)}
    (h : WordsApart ((g, w) :: rest)) :
    Gap g ∧ (w ≠ [] ∧ ∀ c ∈ w, isSpace c = false) ∧ WordsApart rest :=
  ⟨(h _ List.mem_cons_self).1, (h _ List.mem_cons_self).2,
    fun p hp => h p (List.mem_cons_of_mem _ hp)⟩

/-- Behind a whole word the run has ended or whitespace stands. -/
theorem WordsApart.head {rest : List (List Char × List Char)} (h : WordsApart rest) :
    ∀ c, (joined rest).head? = some c → isSpace c = true := by
  intro c hc
  rcases joined_starts fun p hp => (h p hp).1 with rfl | ⟨x, v, hjoined, hspace⟩
  · cases hc
  · rw [hjoined] at hc
    cases hc
    exact hspace

/-- Two texts that start with a word each, where the words end: the words are one word. -/
theorem word_inj {s s' t t' : List Char} (hs : ∀ c ∈ s, isSpace c = false)
    (hs' : ∀ c ∈ s', isSpace c = false) (ht : ∀ c, t.head? = some c → isSpace c = true)
    (ht' : ∀ c, t'.head? = some c → isSpace c = true) (h : s ++ t = s' ++ t') :
    s = s' ∧ t = t' := by
  refine stretch_inj (p := fun c => !isSpace c) (fun c hc => ?_) (fun c hc => ?_)
    (fun c hc => ?_) (fun c hc => ?_) h
  · rw [hs c hc]; rfl
  · rw [hs' c hc]; rfl
  · rw [ht c hc]; rfl
  · rw [ht' c hc]; rfl

/-- A text that starts with a whole word and then a gap. -/
theorem gap_inj {g g' w w' t t' : List Char} (hg : ∀ c ∈ g, isSpace c = true)
    (hg' : ∀ c ∈ g', isSpace c = true) (hw : w ≠ [] ∧ ∀ c ∈ w, isSpace c = false)
    (hw' : w' ≠ [] ∧ ∀ c ∈ w', isSpace c = false)
    (h : g ++ (w ++ t) = g' ++ (w' ++ t')) : g = g' ∧ w ++ t = w' ++ t' := by
  have hstart : ∀ {w t : List Char}, (w ≠ [] ∧ ∀ c ∈ w, isSpace c = false) →
      ∀ c, (w ++ t).head? = some c → isSpace c = false := by
    rintro w t ⟨hne, hall⟩ c hc
    obtain ⟨x, w, rfl⟩ := List.exists_cons_of_ne_nil hne
    obtain rfl : x = c := Option.some.inj hc
    exact hall x List.mem_cons_self
  exact stretch_inj hg hg' (hstart hw) (hstart hw') h

/-! ## Phrases in a run -/

/-- Behind the first word of a phrase stands a space. -/
theorem phrase_tail (inner : List (List Char)) (q t : List Char) :
    ∃ v, joined ((inner ++ [q]).map (Prod.mk [' '])) ++ t = ' ' :: v := by
  cases inner with
  | nil => exact ⟨_, rfl⟩
  | cons v inner => exact ⟨_, rfl⟩

theorem head_space {u : List Char} (hu : ∃ v, u = ' ' :: v) :
    ∀ c, u.head? = some c → isSpace c = true := by
  obtain ⟨v, rfl⟩ := hu
  rintro c ⟨⟩
  rfl

/-- The rest of a phrase at the start of a run that follows a word. -/
theorem phrase_rest {inner : List (List Char)} {q t : List Char}
    {rest : List (List Char × List Char)} (hrest : WordsApart rest)
    (hinner : ∀ w ∈ inner, w ≠ [] ∧ ∀ c ∈ w, isSpace c = false)
    (hq : q ≠ [] ∧ ∀ c ∈ q, isSpace c = false)
    (h : joined ((inner ++ [q]).map (Prod.mk [' '])) ++ t = joined rest) :
    ∃ y r₂, rest = inner.map (Prod.mk [' ']) ++ ([' '], q ++ y) :: r₂ := by
  have hspace : ∀ c ∈ [' '], isSpace c = true := forall_mem_of_all (by decide)
  induction inner generalizing rest with
  | nil =>
    cases rest with
    | nil => cases h
    | cons p rest =>
      obtain ⟨g, w⟩ := p
      obtain ⟨hgap, hw, hrest'⟩ := hrest.cons
      have heq : [' '] ++ (q ++ t) = g ++ (w ++ joined rest) := by simpa using h
      obtain ⟨rfl, hwords⟩ := gap_inj hspace hgap.2 hq hw heq
      rcases List.append_eq_append_iff.mp hwords with ⟨y, rfl, -⟩ | ⟨y, rfl, hy⟩
      · exact ⟨y, rest, rfl⟩
      · cases y with
        | nil => exact ⟨[], rest, by simp⟩
        | cons c y =>
          have hhead := hrest'.head c (by rw [hy]; rfl)
          rw [hq.2 c (by simp)] at hhead
          cases hhead
  | cons v inner ih =>
    cases rest with
    | nil => cases h
    | cons p rest =>
      obtain ⟨g, w⟩ := p
      obtain ⟨hgap, hw, hrest'⟩ := hrest.cons
      have hv := hinner v List.mem_cons_self
      have heq : [' '] ++ (v ++ (joined ((inner ++ [q]).map (Prod.mk [' '])) ++ t)) =
          g ++ (w ++ joined rest) := by simpa using h
      obtain ⟨rfl, hwords⟩ := gap_inj hspace hgap.2 hv hw heq
      obtain ⟨rfl, hrest''⟩ :=
        word_inj hv.2 hw.2 (head_space (phrase_tail inner q t)) hrest'.head hwords
      obtain ⟨y, r₂, rfl⟩ := ih hrest' (fun w hw => hinner w (List.mem_cons_of_mem _ hw)) hrest''
      exact ⟨y, r₂, rfl⟩

/-- A word of a phrase that is not its last starts in the first word of a run, and ends it, or
    behind it. -/
theorem phrase_start {s p u g w : List Char} {rest : List (List Char × List Char)}
    (hp : p ≠ [] ∧ ∀ c ∈ p, isSpace c = false) (hu : ∃ v, u = ' ' :: v)
    (hg : ∀ c ∈ g, isSpace c = true) (hw : ∀ c ∈ w, isSpace c = false) (hrest : WordsApart rest)
    (h : s ++ (p ++ u) = g ++ (w ++ joined rest)) :
    (∃ x, w = x ++ p ∧ u = joined rest) ∨ ∃ s', s' ++ (p ++ u) = joined rest := by
  obtain ⟨c, p, rfl⟩ := List.exists_cons_of_ne_nil hp.1
  have hc := hp.2 c List.mem_cons_self
  have hsplit : (∃ x, s = g ++ x ∧ x ++ (c :: p ++ u) = w ++ joined rest) := by
    rcases List.append_eq_append_iff.mp h with ⟨m, rfl, hm⟩ | ⟨x, rfl, hx⟩
    · cases m with
      | nil => exact ⟨[], by simp, by simpa using hm⟩
      | cons d m =>
        obtain ⟨rfl, -⟩ := List.cons.inj hm
        rw [hg c (by simp)] at hc
        cases hc
    · exact ⟨x, rfl, hx.symm⟩
  obtain ⟨x, -, hx⟩ := hsplit
  rcases List.append_eq_append_iff.mp hx with ⟨m, rfl, hm⟩ | ⟨s', rfl, hs'⟩
  · cases m with
    | nil => exact Or.inr ⟨[], hm⟩
    | cons d m =>
      obtain ⟨heq, hrest'⟩ := word_inj hp.2 (fun e he => hw e (List.mem_append_right _ he))
        (head_space hu) hrest.head hm
      exact Or.inl ⟨x, by rw [heq], hrest'⟩
  · exact Or.inr ⟨s', hs'.symm⟩

/-- A phrase of two words or more is in the text of a run exactly when it lies across its
    words. The first gap may be empty. -/
theorem spelled_part_iff {phrase : List (List Char)} (htwo : 2 ≤ phrase.length)
    (hphrase : ∀ w ∈ phrase, w ≠ [] ∧ ∀ c ∈ w, isSpace c = false) {g w : List Char}
    {rest : List (List Char × List Char)} (hg : ∀ c ∈ g, isSpace c = true)
    (hw : ∀ c ∈ w, isSpace c = false) (hrest : WordsApart rest) :
    spelled phrase <:+: joined ((g, w) :: rest) ↔ Across phrase ((g, w) :: rest) := by
  constructor
  · rintro ⟨s, t, h⟩
    obtain ⟨p, inner, q, rfl⟩ : ∃ p inner q, phrase = p :: (inner ++ [q]) := by
      match phrase, htwo with
      | p :: v :: words, _ =>
        obtain ⟨inner, q, hq⟩ :=
          (List.eq_nil_or_concat' (v :: words)).resolve_left (List.cons_ne_nil _ _)
        exact ⟨p, inner, q, by rw [hq]⟩
    have hp := hphrase p List.mem_cons_self
    have hinner : ∀ w ∈ inner, w ≠ [] ∧ ∀ c ∈ w, isSpace c = false :=
      fun w hw => hphrase w (by simp [hw])
    have hq := hphrase q (by simp)
    have hbehind := phrase_tail inner q t
    rw [spelled_cons, List.append_assoc, List.append_assoc] at h
    -- the run is gone through up to the word in which the phrase starts
    induction rest generalizing g w s with
    | nil =>
      rw [joined_cons] at h
      rcases phrase_start hp hbehind hg hw hrest h with ⟨x, rfl, hnil⟩ | ⟨s', hs'⟩
      · obtain ⟨y, r₂, hnil'⟩ := phrase_rest hrest hinner hq hnil
        exact absurd hnil'.symm (by simp)
      · rw [joined_nil, List.append_eq_nil_iff, List.append_eq_nil_iff] at hs'
        exact absurd hs'.2.1 hp.1
    | cons p' rest ih =>
      obtain ⟨g', w'⟩ := p'
      obtain ⟨hgap, hword, hrest'⟩ := hrest.cons
      rw [joined_cons] at h
      rcases phrase_start hp hbehind hg hw hrest h with ⟨x, rfl, htail⟩ | ⟨s', hs'⟩
      · obtain ⟨y, r₂, heq⟩ := phrase_rest hrest hinner hq htail
        exact ⟨[], g, x, p, inner, q, y, r₂, rfl, by rw [heq, List.nil_append]⟩
      · obtain ⟨r₁, g₂, x, p₂, inner₂, q₂, y, r₂, hwords, heq⟩ := ih hgap.2 hword.2 hrest' s' hs'
        exact ⟨(g, w) :: r₁, g₂, x, p₂, inner₂, q₂, y, r₂, hwords, by rw [heq, List.cons_append]⟩
  · rintro ⟨r₁, g', x, p, inner, q, y, r₂, rfl, hrun⟩
    refine ⟨joined r₁ ++ (g' ++ x), y ++ joined r₂, ?_⟩
    rw [hrun, spelled_cons]
    simp

/-! ## The words of a run -/

/-- A text is split at every whitespace character. -/
theorem splitWords_append_space {c : Char} (hc : isSpace c = true) (x y : List Char) :
    splitWords (x ++ c :: y) = splitWords x ++ splitWords y := by
  unfold splitWords
  rw [List.splitOnP_append_cons x y hc, List.filter_append]

theorem splitWords_gap {g : List Char} (hg : ∀ c ∈ g, isSpace c = true) (t : List Char) :
    splitWords (g ++ t) = splitWords t := by
  induction g with
  | nil => rfl
  | cons c g ih =>
    have hcons := splitWords_append_space (hg c List.mem_cons_self) [] (g ++ t)
    rw [List.nil_append] at hcons
    rw [List.cons_append, hcons, ih fun c hc => hg c (List.mem_cons_of_mem _ hc)]
    rfl

theorem splitWords_word {w : List Char} (hw : w ≠ [] ∧ ∀ c ∈ w, isSpace c = false) :
    splitWords w = [w] := by
  rw [splitWords, List.splitOnP_eq_singleton hw.2]
  simp [hw.1]

theorem splitWords_joined {w : List Char} (hw : w ≠ [] ∧ ∀ c ∈ w, isSpace c = false)
    {rest : List (List Char × List Char)} (hrest : WordsApart rest) :
    splitWords (w ++ joined rest) = w :: rest.map Prod.snd := by
  induction rest generalizing w with
  | nil => rw [joined_nil, List.append_nil, splitWords_word hw]; rfl
  | cons p rest ih =>
    obtain ⟨g, v⟩ := p
    obtain ⟨⟨hne, hall⟩, hv, hrest'⟩ := hrest.cons
    obtain ⟨c, g, rfl⟩ := List.exists_cons_of_ne_nil hne
    rw [joined_cons, List.cons_append, splitWords_append_space (hall c List.mem_cons_self),
      splitWords_word hw, splitWords_gap fun c hc => hall c (List.mem_cons_of_mem _ hc),
      ih hv hrest']
    rfl

theorem toLower_range {c : Char} (h : c.isUpper = true) :
    97 ≤ c.toLower.toNat ∧ c.toLower.toNat ≤ 122 := by
  have hrange := upper_range h
  have hval : c.toLower.val = c.val + 32 :=
    (congrArg Char.val (dif_pos (of_decide_eq_true h))).trans rfl
  have hadd : c.toLower.toNat = (c.val + 32).toNat := congrArg UInt32.toNat hval
  have hlower : c.toLower.toNat = c.toNat + 32 := by
    rw [hadd, UInt32.toNat_add]
    exact Nat.mod_eq_of_lt (Nat.lt_of_le_of_lt (Nat.add_le_add_right hrange.2 32) (by decide))
  omega

theorem toLower_of_not_isUpper {c : Char} (h : c.isUpper = false) : c.toLower = c :=
  dif_neg (of_decide_eq_false h)

/-- A letter is no whitespace in lower case either. -/
theorem isSpace_toLower (c : Char) : isSpace c.toLower = isSpace c := by
  cases hupper : c.isUpper with
  | true =>
    have hrange := toLower_range hupper
    rw [not_isSpace_of_isUpper hupper]
    refine Bool.eq_false_iff.mpr fun hspace => ?_
    have := isSpace_range hspace
    omega
  | false => rw [toLower_of_not_isUpper hupper]

theorem lowered_gap {g : List Char} (hg : ∀ c ∈ g, isSpace c = true) : lowered g = g := by
  rw [lowered, List.map_congr_left fun c hc => toLower_of_not_isUpper
    (not_isUpper_of_isSpace (hg c hc))]
  exact List.map_id _

/-- A run in lower case. -/
def loweredRun (run : List (List Char × List Char)) : List (List Char × List Char) :=
  run.map fun p => (p.1, lowered p.2)

theorem lowered_word {w : List Char} (hw : TitleWord w) :
    lowered w ≠ [] ∧ ∀ c ∈ lowered w, isSpace c = false := by
  refine ⟨fun h => hw.ne_nil (List.map_eq_nil_iff.mp h), fun c hc => ?_⟩
  obtain ⟨d, hd, rfl⟩ := List.mem_map.mp hc
  rw [isSpace_toLower]
  rcases (Bool.or_eq_true _ _).mp (hw.isAlpha d hd) with hupper | hlower
  · exact not_isSpace_of_isUpper hupper
  · exact not_isSpace_of_isLower hlower

theorem wordsApart_loweredRun {rest : List (List Char × List Char)} (hrest : GappedWords rest) :
    WordsApart (loweredRun rest) := by
  intro p hp
  obtain ⟨p, hmem, rfl⟩ := List.mem_map.mp hp
  exact ⟨(hrest p hmem).1, lowered_word (hrest p hmem).2⟩

theorem lowered_joined {rest : List (List Char × List Char)} (hrest : GappedWords rest) :
    lowered (joined rest) = joined (loweredRun rest) := by
  induction rest with
  | nil => rfl
  | cons p rest ih =>
    obtain ⟨g, w⟩ := p
    have hrest' : GappedWords rest := fun p hp => hrest p (List.mem_cons_of_mem _ hp)
    have hgap := lowered_gap (hrest _ List.mem_cons_self).1.2
    have htail := ih hrest'
    unfold lowered at hgap htail
    rw [joined_cons, lowered, List.map_append, List.map_append, hgap, htail]
    exact (joined_cons g (lowered w) (loweredRun rest)).symm

/-! ## What the allowlist excuses -/

/-- Among the words is a phrase. -/
def NamesPhrase (words : List (List Char)) : Prop :=
  ∃ phrase ∈ allowlistPhrases, splitWords phrase.toList <:+: words

/-- Every phrase has two words or more, with one space between. -/
theorem allowlistPhrases_spelled : ∀ phrase ∈ allowlistPhrases,
    phrase.toList = spelled (splitWords phrase.toList) ∧
      2 ≤ (splitWords phrase.toList).length ∧
      ∀ w ∈ splitWords phrase.toList, w ≠ [] ∧ ∀ c ∈ w, isSpace c = false := by
  have hall : (allowlistPhrases.all fun phrase =>
      phrase.toList == spelled (splitWords phrase.toList) &&
        decide (2 ≤ (splitWords phrase.toList).length) &&
        (splitWords phrase.toList).all fun w => !w.isEmpty && w.all fun c => !isSpace c) = true := by
    decide +kernel
  intro phrase hmem
  have hphrase := List.all_eq_true.mp hall phrase hmem
  rw [Bool.and_eq_true, Bool.and_eq_true, decide_eq_true_eq] at hphrase
  obtain ⟨⟨hspelled, htwo⟩, hwords⟩ := hphrase
  refine ⟨eq_of_beq hspelled, htwo, fun w hw => ?_⟩
  have hword := List.all_eq_true.mp hwords w hw
  rw [Bool.and_eq_true] at hword
  exact ⟨by simpa using hword.1, fun c hc => by simpa using List.all_eq_true.mp hword.2 c hc⟩

section

variable {w first : List Char} {rest : List (List Char × List Char)}

theorem NameRun.lowered_eq (hrun : NameRun w first rest) :
    lowered w = joined (loweredRun (([], first) :: rest)) := by
  rw [hrun.text, lowered, List.map_append]
  exact congrArg (lowered first ++ ·) (lowered_joined hrun.gapped)

/-- A phrase is found in a match where it lies across the words. -/
theorem NameRun.mentionsPhrase_iff (hrun : NameRun w first rest) :
    mentionsPhrase w = true ↔
      ∃ phrase ∈ allowlistPhrases,
        Across (splitWords phrase.toList) (loweredRun (([], first) :: rest)) := by
  rw [mentionsPhrase, List.any_eq_true]
  refine exists_congr fun phrase => and_congr_right fun hmem => ?_
  obtain ⟨hspelled, htwo, hwords⟩ := allowlistPhrases_spelled phrase hmem
  have hiff := spelled_part_iff htwo hwords (g := []) (fun c hc => by cases hc)
    (lowered_word hrun.title).2 (wordsApart_loweredRun hrun.gapped)
  rw [← hspelled] at hiff
  rw [decide_eq_true_eq, hrun.lowered_eq]
  exact hiff

theorem NameRun.splitWords_lowered (hrun : NameRun w first rest) :
    splitWords (lowered w) = (loweredRun (([], first) :: rest)).map Prod.snd := by
  rw [hrun.lowered_eq]
  exact splitWords_joined (lowered_word hrun.title) (wordsApart_loweredRun hrun.gapped)

theorem TitleWord.word (h : TitleWord w) : w ≠ [] ∧ ∀ c ∈ w, isSpace c = false := by
  refine ⟨h.ne_nil, fun c hc => ?_⟩
  rw [← isSpace_toLower]
  exact (lowered_word h).2 _ (List.mem_map_of_mem hc)

theorem NameRun.length_splitWords (hrun : NameRun w first rest) :
    (splitWords w).length = rest.length + 1 := by
  rw [hrun.text, splitWords_joined hrun.title.word fun p hp =>
    ⟨(hrun.gapped p hp).1, (hrun.gapped p hp).2.word⟩]
  simp

theorem nameRun_of_mem_findall {isAlnum : Char → Bool} (halnum : AsciiAlnum isAlnum)
    {text : List Char} (hw : w ∈ (nameRunRe isAlnum).findall text) :
    ∃ first rest, NameRun w first rest := by
  obtain ⟨ps₁, ps₂, hps⟩ := mem_findall.mp hw
  have hcut := cut_scan (nameRunRe_consuming halnum) text
  rw [hps] at hcut
  exact ((nameRunRe_spells halnum).mp hcut.spells.2).2.2

/-- A match is left out exactly when it is excused. -/
theorem not_mem_findProbableNames {isAlnum : Char → Bool} {text : String}
    (hw : w ∈ (nameRunRe isAlnum).findall text.toList) :
    String.ofList w ∉ findProbableNames isAlnum text ↔ isExcused w = true := by
  rw [mem_findProbableNames, ← Bool.not_eq_false, not_iff_not]
  constructor
  · rintro ⟨v, -, hv, heq⟩
    rw [String.ofList_inj.mp heq]
    exact hv
  · exact fun h => ⟨w, hw, h, rfl⟩

/-- Only matches with a phrase as whole words are left out, exactly when each match of at most
    three words that a phrase lies across has a phrase as whole words. -/
theorem allowlist_whole_words_iff {isAlnum : Char → Bool} (halnum : AsciiAlnum isAlnum)
    (text : String) :
    (∀ w ∈ (nameRunRe isAlnum).findall text.toList,
      String.ofList w ∉ findProbableNames isAlnum text → NamesPhrase (splitWords (lowered w))) ↔
    ∀ w ∈ (nameRunRe isAlnum).findall text.toList, ∀ first rest, NameRun w first rest →
      rest.length + 1 ≤ 3 →
      (∃ phrase ∈ allowlistPhrases,
        Across (splitWords phrase.toList) (loweredRun (([], first) :: rest))) →
      NamesPhrase ((loweredRun (([], first) :: rest)).map Prod.snd) := by
  constructor
  · intro h w hw first rest hrun hthree hacross
    have hexcused : isExcused w = true := by
      rw [isExcused, hrun.mentionsPhrase_iff.mpr hacross, hrun.length_splitWords]
      simp [hthree]
    rw [← hrun.splitWords_lowered]
    exact h w hw ((not_mem_findProbableNames hw).mpr hexcused)
  · intro h w hw hout
    obtain ⟨first, rest, hrun⟩ := nameRun_of_mem_findall halnum hw
    have hexcused := (not_mem_findProbableNames hw).mp hout
    rw [isExcused, Bool.or_eq_true, Bool.and_eq_true, decide_eq_true_eq, List.any_eq_true]
      at hexcused
    rcases hexcused with ⟨phrase, hmem, heq⟩ | ⟨hmention, hthree⟩
    · refine ⟨phrase, hmem, ?_⟩
      exact ⟨[], [], by rw [eq_of_beq heq, List.nil_append, List.append_nil]⟩
    · rw [hrun.length_splitWords] at hthree
      rw [hrun.splitWords_lowered]
      exact h w hw first rest hrun hthree (hrun.mentionsPhrase_iff.mp hmention)

theorem newYork_whole_words : "New York" ∉ findProbableNames Char.isAlphanum "New York" ∧
    ∀ w ∈ (nameRunRe Char.isAlphanum).findall "New York".toList,
      String.ofList w ∉ findProbableNames Char.isAlphanum "New York" →
        NamesPhrase (splitWords (lowered w)) := by
  refine ⟨by decide +kernel, (allowlist_whole_words_iff (fun _ _ => rfl) "New York").mpr ?_⟩
  intro w hw first rest hrun _ _
  have hphrase : ∀ v ∈ (nameRunRe Char.isAlphanum).findall "New York".toList,
      splitWords "new york".toList <:+: splitWords (lowered v) := by decide +kernel
  rw [← hrun.splitWords_lowered]
  exact ⟨"new york", by decide, hphrase w hw⟩

theorem agnewYorke_passed_over : ¬ ∀ text : String, (∀ c ∈ text.toList, c.toNat < 128) →
    ∀ w ∈ (nameRunRe Char.isAlphanum).findall text.toList,
      String.ofList w ∉ findProbableNames Char.isAlphanum text →
        NamesPhrase (splitWords (lowered w)) := by
  intro h
  have hfound : "Agnew Yorke".toList ∈
      (nameRunRe Char.isAlphanum).findall "Agnew Yorke".toList := by decide +kernel
  have hout : String.ofList "Agnew Yorke".toList ∉
      findProbableNames Char.isAlphanum "Agnew Yorke" :=
    (not_mem_findProbableNames hfound).mpr (by decide +kernel)
  obtain ⟨phrase, hmem, hpart⟩ :=
    h "Agnew Yorke" (forall_mem_of_all (by decide)) _ hfound hout
  have hnone : ∀ phrase ∈ allowlistPhrases,
      ¬ splitWords phrase.toList <:+: splitWords (lowered "Agnew Yorke".toList) := by
    decide +kernel
  exact hnone phrase hmem hpart

end

end LinkedOut
