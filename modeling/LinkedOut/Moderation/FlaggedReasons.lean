/-
  `scan_for_flagged_content` of `app/core/moderation_filter.py`: what a moderator reads in
  `flagged_reason`.

  * `scan_eq_iff`: the reason names the first three people found, in order, and says how
    many there are; nothing else of the text shows in it.
  * `named_items_go_first`: in every state of every run the stored reasons are those of the
    rows' own texts, and the moderation queue lists whatever names somebody first.

  A name is made of letters and whitespace, so a quote ends it and the reason can be read
  back (`quotedNames_inj`).
-/
import LinkedOut.Effects
import LinkedOut.Gates.PasswordHashes
import LinkedOut.Moderation.ProbableNames
import LinkedOut.Moderation.Queue

namespace LinkedOut

open Regex

/-! ## app/core/moderation_filter.py -/

/-- `dict.fromkeys`: each name once, in the order they come. -/
def fromkeys (names : List String) : List String :=
  names.foldl (fun unique name => if name ∈ unique then unique else unique ++ [name]) []

/-- `all_names` -/
def allNames (isAlnum : Char → Bool) (fields : List (Option String)) : List String :=
  fields.flatMap fun field =>
    match field with
    | none => []
    | some text => if text = "" then [] else findProbableNames isAlnum text

/-- `unique` -/
def uniqueNames (isAlnum : Char → Bool) (fields : List (Option String)) : List String :=
  fromkeys (allNames isAlnum fields)

def quoted (name : String) : String := "\"" ++ name ++ "\""

/-- `sample` -/
def nameSample (unique : List String) : String :=
  ", ".intercalate ((unique.take 3).map quoted)

/-- `suffix` -/
def nameSuffix (unique : List String) : String :=
  if unique.length ≤ 3 then "" else s!" (+{unique.length - 3} more)"

/-- The reason for which a moderator should look first, or none when the fields name nobody. -/
def scanForFlaggedContent (isAlnum : Char → Bool) (fields : List (Option String)) :
    Option String :=
  if allNames isAlnum fields = [] then none
  else
    let unique := uniqueNames isAlnum fields
    some ("possible personal name detected: " ++ nameSample unique ++ nameSuffix unique)

/-! ## The names of several fields -/

theorem mem_foldl_fromkeys {names unique : List String} {name : String} :
    name ∈ names.foldl (fun unique name => if name ∈ unique then unique else unique ++ [name])
      unique ↔ name ∈ unique ∨ name ∈ names := by
  induction names generalizing unique with
  | nil => simp
  | cons a names ih =>
    rw [List.foldl_cons, ih, List.mem_cons]
    split
    · rename_i ha
      constructor
      · rintro (h | h)
        · exact Or.inl h
        · exact Or.inr (Or.inr h)
      · rintro (h | rfl | h)
        · exact Or.inl h
        · exact Or.inl ha
        · exact Or.inr h
    · rw [List.mem_append, List.mem_singleton, or_assoc]

theorem mem_fromkeys {names : List String} {name : String} :
    name ∈ fromkeys names ↔ name ∈ names := by
  rw [fromkeys, mem_foldl_fromkeys]
  simp

theorem fromkeys_eq_nil_iff {names : List String} : fromkeys names = [] ↔ names = [] := by
  rw [List.eq_nil_iff_forall_not_mem, List.eq_nil_iff_forall_not_mem]
  exact forall_congr' fun name => not_congr mem_fromkeys

theorem findProbableNames_empty (isAlnum : Char → Bool) : findProbableNames isAlnum "" = [] :=
  if_pos rfl

theorem mem_allNames {isAlnum : Char → Bool} {fields : List (Option String)} {name : String} :
    name ∈ allNames isAlnum fields ↔
      ∃ text, some text ∈ fields ∧ name ∈ findProbableNames isAlnum text := by
  rw [allNames, List.mem_flatMap]
  constructor
  · rintro ⟨field, hfield, hname⟩
    cases field with
    | none => cases hname
    | some text =>
      dsimp only at hname
      split at hname
      · cases hname
      · exact ⟨text, hfield, hname⟩
  · rintro ⟨text, htext, hname⟩
    refine ⟨some text, htext, ?_⟩
    dsimp only
    split
    · rename_i hempty
      rw [hempty, findProbableNames_empty] at hname
      cases hname
    · exact hname

/-- Some field has a probable name. -/
def NamesSomeone (isAlnum : Char → Bool) (fields : List (Option String)) : Prop :=
  ∃ text, some text ∈ fields ∧ findProbableNames isAlnum text ≠ []

theorem allNames_ne_nil_iff {isAlnum : Char → Bool} {fields : List (Option String)} :
    allNames isAlnum fields ≠ [] ↔ NamesSomeone isAlnum fields := by
  constructor
  · intro h
    obtain ⟨name, hname⟩ := List.exists_mem_of_ne_nil _ h
    obtain ⟨text, htext, hmem⟩ := mem_allNames.mp hname
    exact ⟨text, htext, List.ne_nil_of_mem hmem⟩
  · rintro ⟨text, htext, hne⟩
    obtain ⟨name, hname⟩ := List.exists_mem_of_ne_nil _ hne
    exact List.ne_nil_of_mem (mem_allNames.mpr ⟨text, htext, hname⟩)

theorem scan_isSome_iff {isAlnum : Char → Bool} {fields : List (Option String)} :
    (scanForFlaggedContent isAlnum fields).isSome = true ↔ NamesSomeone isAlnum fields := by
  rw [← allNames_ne_nil_iff, scanForFlaggedContent]
  split
  · rename_i hnil
    simp [hnil]
  · rename_i hne
    simp [hne]

/-! ## Reading a reason back -/

/-- A name has only letters and whitespace in it. -/
theorem not_mem_name {isAlnum : Char → Bool} (halnum : AsciiAlnum isAlnum)
    {fields : List (Option String)} {name : String} (hname : name ∈ uniqueNames isAlnum fields)
    {c : Char} (halpha : c.isAlpha = false) (hspace : isSpace c = false) :
    c ∉ name.toList := by
  obtain ⟨text, -, hfound⟩ := mem_allNames.mp (mem_fromkeys.mp hname)
  obtain ⟨w, hw, -, rfl⟩ := mem_findProbableNames.mp hfound
  obtain ⟨ps₁, ps₂, hps⟩ := mem_findall.mp hw
  obtain ⟨run, hrun, -, -, rfl⟩ := runIn_of_hit halnum hps
  obtain ⟨first, rest, rfl, hfirst, hgapped⟩ := hrun.words
  rw [String.toList_ofList, joined_cons, List.nil_append, List.mem_append]
  rintro (hc | hc)
  · rw [hfirst.isAlpha c hc] at halpha
    cases halpha
  · obtain ⟨p, hp, hcp⟩ := List.mem_flatMap.mp hc
    rcases List.mem_append.mp hcp with hgap | hword
    · rw [(hgapped p hp).1.2 c hgap] at hspace
      cases hspace
    · rw [(hgapped p hp).2.isAlpha c hword] at halpha
      cases halpha

/-- Quoted names, each after a comma, up to something that is no comma. -/
theorem quotedNames_inj {l l' : List (List Char)} (hl : ∀ w ∈ l, '"' ∉ w)
    (hl' : ∀ w ∈ l', '"' ∉ w) {t t' : List Char} (ht : t.head? ≠ some ',')
    (ht' : t'.head? ≠ some ',')
    (h : (l.flatMap fun w => ',' :: ' ' :: '"' :: (w ++ ['"'])) ++ t =
      (l'.flatMap fun w => ',' :: ' ' :: '"' :: (w ++ ['"'])) ++ t') : l = l' ∧ t = t' := by
  induction l generalizing l' with
  | nil =>
    cases l' with
    | nil => exact ⟨rfl, h⟩
    | cons w' l' => exact absurd (by rw [List.flatMap_nil, List.nil_append] at h; rw [h]; rfl) ht
  | cons w l ih =>
    cases l' with
    | nil => exact absurd (by rw [List.flatMap_nil, List.nil_append] at h; rw [← h]; rfl) ht'
    | cons w' l' =>
      simp only [List.flatMap_cons, List.cons_append, List.append_assoc, List.nil_append,
        List.cons.injEq, true_and] at h
      have hne : ∀ v : List Char, '"' ∉ v → ∀ c ∈ v, (c != '"') = true :=
        fun v hv c hc => bne_iff_ne.mpr fun heq => hv (heq ▸ hc)
      obtain ⟨rfl, hrest⟩ := stretch_inj (p := fun c => c != '"')
        (hne w (hl w List.mem_cons_self)) (hne w' (hl' w' List.mem_cons_self))
        (by rintro c ⟨⟩; rfl) (by rintro c ⟨⟩; rfl) h
      obtain ⟨rfl, rfl⟩ := ih (fun v hv => hl v (List.mem_cons_of_mem _ hv))
        (fun v hv => hl' v (List.mem_cons_of_mem _ hv)) (List.cons.inj hrest).2
      exact ⟨rfl, rfl⟩

/-- A separator before the whole is one before each part. -/
theorem append_intercalate {α : Type} (sep : List α) {parts : List (List α)} (h : parts ≠ []) :
    sep ++ sep.intercalate parts = parts.flatMap fun part => sep ++ part := by
  induction parts with
  | nil => exact absurd rfl h
  | cons part parts ih =>
    by_cases hparts : parts = []
    · rw [hparts, List.intercalate_singleton, List.flatMap_singleton]
    · rw [List.intercalate_cons_of_ne_nil hparts, List.flatMap_cons, ← ih hparts,
        List.append_assoc, List.append_assoc]

theorem toList_nameSample {unique : List String} (h : unique ≠ []) :
    ", ".toList ++ (nameSample unique).toList =
      ((unique.take 3).map String.toList).flatMap fun w => ',' :: ' ' :: '"' :: (w ++ ['"']) := by
  have hne : ((unique.take 3).map quoted).map String.toList ≠ [] := by
    simpa using h
  rw [nameSample, String.toList_intercalate, append_intercalate _ hne, List.map_map,
    List.flatMap_map, List.flatMap_map]
  refine congrArg (List.flatMap · _) (funext fun name => ?_)
  rw [Function.comp_apply, quoted, String.toList_append, String.toList_append]
  rfl

theorem toString_nat_inj {m n : Nat} (h : toString m = toString n) : m = n := by
  have hread := pyInt_toString m
  rw [h, pyInt_toString] at hread
  exact (Int.ofNat.inj (Option.some.inj hread)).symm

theorem head?_nameSuffix (unique : List String) :
    (nameSuffix unique).toList.head? ≠ some ',' := by
  rw [nameSuffix]
  split
  · simp
  · simp [toString]

/-- The number of names that are left out. -/
theorem nameSuffix_inj {unique unique' : List String} (h : nameSuffix unique = nameSuffix unique') :
    unique.length - 3 = unique'.length - 3 := by
  rw [nameSuffix, nameSuffix] at h
  split at h <;> split at h
  · omega
  · simp at h
  · simp at h
  · exact toString_nat_inj (by simpa using h)

theorem scan_eq_none_iff {isAlnum : Char → Bool} {fields : List (Option String)} :
    scanForFlaggedContent isAlnum fields = none ↔ uniqueNames isAlnum fields = [] := by
  rw [scanForFlaggedContent, uniqueNames, fromkeys_eq_nil_iff]
  split
  · rename_i hnil
    simp [hnil]
  · rename_i hne
    simp [hne]

theorem scan_of_ne_nil {isAlnum : Char → Bool} {fields : List (Option String)}
    (h : uniqueNames isAlnum fields ≠ []) :
    scanForFlaggedContent isAlnum fields =
      some ("possible personal name detected: " ++ nameSample (uniqueNames isAlnum fields) ++
        nameSuffix (uniqueNames isAlnum fields)) :=
  if_neg fun hnil => h (fromkeys_eq_nil_iff.mpr hnil)

/-- The quoted names and the count behind them, out of one text. -/
theorem nameSample_suffix_inj {isAlnum : Char → Bool} (halnum : AsciiAlnum isAlnum)
    {fields fields' : List (Option String)} (h : uniqueNames isAlnum fields ≠ [])
    (h' : uniqueNames isAlnum fields' ≠ [])
    (heq : nameSample (uniqueNames isAlnum fields) ++ nameSuffix (uniqueNames isAlnum fields) =
      nameSample (uniqueNames isAlnum fields') ++ nameSuffix (uniqueNames isAlnum fields')) :
    (uniqueNames isAlnum fields).take 3 = (uniqueNames isAlnum fields').take 3 ∧
      nameSuffix (uniqueNames isAlnum fields) = nameSuffix (uniqueNames isAlnum fields') := by
  have hquote : ∀ fields, ∀ w ∈ ((uniqueNames isAlnum fields).take 3).map String.toList,
      '"' ∉ w := by
    intro fields w hw
    obtain ⟨name, hname, rfl⟩ := List.mem_map.mp hw
    exact not_mem_name halnum (List.mem_of_mem_take hname) (by decide) (by decide)
  have hchars := congrArg (fun text => ", ".toList ++ text.toList) heq
  simp only [String.toList_append, ← List.append_assoc, toList_nameSample h,
    toList_nameSample h'] at hchars
  obtain ⟨hnames, hsuffix⟩ := quotedNames_inj (hquote fields) (hquote fields')
    (head?_nameSuffix _) (head?_nameSuffix _) hchars
  exact ⟨List.map_injective_iff.mpr (fun _ _ => String.toList_inj.mp) hnames,
    String.toList_inj.mp hsuffix⟩

/-- The same reason is given for texts with the same first three names and as many names, and
    for no others. -/
theorem scan_eq_iff {isAlnum : Char → Bool} (halnum : AsciiAlnum isAlnum)
    (fields fields' : List (Option String)) :
    scanForFlaggedContent isAlnum fields = scanForFlaggedContent isAlnum fields' ↔
      (uniqueNames isAlnum fields).take 3 = (uniqueNames isAlnum fields').take 3 ∧
        (uniqueNames isAlnum fields).length = (uniqueNames isAlnum fields').length := by
  by_cases h : uniqueNames isAlnum fields = []
  · rw [scan_eq_none_iff.mpr h, h, eq_comm, scan_eq_none_iff]
    constructor
    · intro h'
      rw [h']
      exact ⟨rfl, rfl⟩
    · rintro ⟨-, hlength⟩
      exact List.length_eq_zero_iff.mp hlength.symm
  by_cases h' : uniqueNames isAlnum fields' = []
  · rw [scan_eq_none_iff.mpr h', scan_eq_none_iff, h']
    exact ⟨fun hnil => absurd hnil h, fun hlength =>
      absurd (List.length_eq_zero_iff.mp hlength.2) h⟩
  rw [scan_of_ne_nil h, scan_of_ne_nil h', Option.some_inj, String.append_assoc,
    String.append_assoc]
  constructor
  · intro heq
    obtain ⟨htake, hsuffix⟩ := nameSample_suffix_inj halnum h h' ((String.append_right_inj _).mp heq)
    refine ⟨htake, ?_⟩
    have hfirst := congrArg List.length htake
    have hrest := nameSuffix_inj hsuffix
    rw [List.length_take, List.length_take] at hfirst
    omega
  · rintro ⟨htake, hlength⟩
    rw [nameSample, nameSample, nameSuffix, nameSuffix, htake, hlength]

/-- A reason is a text the column can hold. -/
theorem storable_scan {isAlnum : Char → Bool} (halnum : AsciiAlnum isAlnum)
    (fields : List (Option String)) :
    nullable storable (scanForFlaggedContent isAlnum fields) = true := by
  by_cases h : uniqueNames isAlnum fields = []
  · rw [scan_eq_none_iff.mpr h]
    rfl
  have hnul : Char.ofNat 0 ∉ ", ".toList ++ (nameSample (uniqueNames isAlnum fields)).toList := by
    rw [toList_nameSample h, List.mem_flatMap]
    rintro ⟨w, hw, hmem⟩
    obtain ⟨name, hname, rfl⟩ := List.mem_map.mp hw
    have hfree := not_mem_name halnum (List.mem_of_mem_take hname) (c := Char.ofNat 0) (by decide)
      (by decide)
    simp [hfree] at hmem
  have hsuffix : Char.ofNat 0 ∉ (nameSuffix (uniqueNames isAlnum fields)).toList := by
    rw [nameSuffix]
    split
    · simp
    · intro hmem
      simp only [String.toList_append, List.mem_append] at hmem
      rcases hmem with (hmem | hmem) | hmem
      · revert hmem
        decide
      · exact absurd (isDigit_of_mem_toString hmem) (by decide)
      · revert hmem
        decide
  rw [scan_of_ne_nil h]
  refine List.all_eq_true.mpr fun c hc => decide_eq_true ?_
  rintro rfl
  rw [String.toList_append, String.toList_append, List.mem_append, List.mem_append] at hc
  rcases hc with (hc | hc) | hc
  · revert hc
    decide
  · exact hnul (List.mem_append_right _ hc)
  · exact hsuffix hc

/-- What a reason says and what it does not: there is one exactly when some field has a
    probable name, it fits its column, and it is read back as the first three names and the
    number of all of them. -/
theorem flagged_reason_reads_back {isAlnum : Char → Bool} (halnum : AsciiAlnum isAlnum)
    (fields : List (Option String)) :
    ((scanForFlaggedContent isAlnum fields).isSome = true ↔ NamesSomeone isAlnum fields) ∧
    nullable storable (scanForFlaggedContent isAlnum fields) = true ∧
    ∀ fields', scanForFlaggedContent isAlnum fields = scanForFlaggedContent isAlnum fields' ↔
      (uniqueNames isAlnum fields).take 3 = (uniqueNames isAlnum fields').take 3 ∧
        (uniqueNames isAlnum fields).length = (uniqueNames isAlnum fields').length :=
  ⟨scan_isSome_iff, storable_scan halnum fields, scan_eq_iff halnum fields⟩

theorem two_namesakes_read_back :
    scanForFlaggedContent Char.isAlphanum [some "Al Bo, Cy Do", none] =
      scanForFlaggedContent Char.isAlphanum [some "ask Al Bo", some "or Cy Do not Al Bo"] :=
  ((flagged_reason_reads_back (fun _ _ => rfl) _).2.2 _).mpr (by decide +kernel)

/-! ## Runs -/

/-- The stored reasons are those of the rows' own texts. -/
structure FlaggedByText (isAlnum : Char → Bool) (db : Db) : Prop where
  reviews : ∀ r ∈ db.reviews.rows,
    r.flaggedReason = scanForFlaggedContent isAlnum [some r.department, some r.prose]
  layoffEvents : ∀ e ∈ db.layoffEvents.rows,
    e.flaggedReason = scanForFlaggedContent isAlnum [e.department]

/-- The texts of the item that an entry of the queue stands for. -/
def Db.textsOf (db : Db) (entry : ModerationQueueEntry) : List (Option String) :=
  match entry.itemType with
  | .review =>
    match db.reviews.find? entry.itemId with
    | none => []
    | some r => [some r.department, some r.prose]
  | _ =>
    match db.layoffEvents.find? entry.itemId with
    | none => []
    | some e => [e.department]

section

variable {isAlnum : Char → Bool} {p : Platform}
  (hp : p.scanForFlaggedContent = scanForFlaggedContent isAlnum)

include hp

/-- No transaction writes a reason but with the texts it is about. -/
theorem write_flaggedByText {env : Env} {db db' : Db} {req : Request} {out : Response}
    (h : Write p env db req out db') (hdb : FlaggedByText isAlnum db) :
    FlaggedByText isAlnum db' := by
  cases h with
  | reviewSubmitted _ _ _ _ hinsert =>
    refine ⟨fun r hr => ?_, hdb.layoffEvents⟩
    rcases (Table.mem_insert hinsert r).mp hr with hr | rfl
    · exact hdb.reviews r hr
    · exact congrFun hp _
  | layoffSubmitted _ _ _ hinsert =>
    refine ⟨hdb.reviews, fun e he => ?_⟩
    rcases (Table.mem_insert hinsert e).mp he with he | rfl
    · exact hdb.layoffEvents e he
    · exact congrFun hp _
  | reviewDecided =>
    refine ⟨fun r hr => ?_, hdb.layoffEvents⟩
    rcases (Table.mem_update _ _ _ r).mp hr with ⟨hr, -⟩ | ⟨a, ha, -, rfl⟩
    · exact hdb.reviews r hr
    · exact hdb.reviews a ha
  | layoffDecided =>
    refine ⟨hdb.reviews, fun e he => ?_⟩
    rcases (Table.mem_update _ _ _ e).mp he with ⟨he, -⟩ | ⟨a, ha, -, rfl⟩
    · exact hdb.layoffEvents e he
    · exact hdb.layoffEvents a ha
  | _ => exact ⟨hdb.reviews, hdb.layoffEvents⟩

theorem exec_flaggedByText (es : List (Request × Draws)) (s : Server)
    (hs : FlaggedByText isAlnum s.db) : FlaggedByText isAlnum ((Api p).exec es s).db := by
  refine (Api p).exec_inv (I := fun s => FlaggedByText isAlnum s.db) (C := fun _ _ => True)
    (fun s e _ hI => ?_) es s hs ((Api p).along_true es s)
  exact handle_rel (R := fun _ db' => FlaggedByText isAlnum db') hI
    fun hwrite => write_flaggedByText hp hwrite hI

end

/-- An entry of the queue carries the reason of its item's texts. -/
theorem flaggedReason_of_mem_queue {isAlnum : Char → Bool} {db : Db}
    (hdb : FlaggedByText isAlnum db) {place : Nat → Uuid → Nat} {entry : ModerationQueueEntry}
    (h : entry ∈ mergedQueue place db) :
    entry.flaggedReason = scanForFlaggedContent isAlnum (db.textsOf entry) := by
  have hmem := (mergedQueue_perm place db).mem_iff.mp h
  rcases List.mem_append.mp hmem with hreview | hevent
  · obtain ⟨r, hr, rfl⟩ := List.mem_map.mp hreview
    have hrow := ((db.reviews.mem_select _ r).mp hr).1
    have hfind : db.reviews.find? r.id = some r := (db.reviews.find?_eq_some _ _).mpr ⟨hrow, rfl⟩
    simp only [Db.textsOf, Review.queueEntry, hfind]
    exact hdb.reviews r hrow
  · obtain ⟨e, he, rfl⟩ := List.mem_map.mp hevent
    have hrow := ((db.layoffEvents.mem_select _ e).mp he).1
    have hfind : db.layoffEvents.find? e.id = some e :=
      (db.layoffEvents.find?_eq_some _ _).mpr ⟨hrow, rfl⟩
    simp only [Db.textsOf, LayoffEvent.queueEntry, hfind]
    exact hdb.layoffEvents e hrow

/-- An ASCII text with a maximal run of two Title words or more, and no allowlisted phrase
    in it. -/
def HasPlainName (isAlnum : Char → Bool) (text : String) : Prop :=
  (∀ c ∈ text.toList, c.toNat < 128) ∧ ∃ before run after,
    MaximalRun isAlnum text.toList before run after ∧ 2 ≤ run.length ∧
      ∀ phrase ∈ allowlistPhrases, ¬ phrase.toList <:+: lowered (joined run)

/-- The first word of such a run is in a reported name. -/
theorem HasPlainName.found {isAlnum : Char → Bool} (halnum : AsciiAlnum isAlnum) {text : String}
    (h : HasPlainName isAlnum text) : findProbableNames isAlnum text ≠ [] := by
  obtain ⟨hascii, before, run, after, hrun, htwo, hphrase⟩ := h
  have hspaces := halnum.spacesBreak hascii
  have hsource := source_scan (nameRunRe_consuming halnum) text.toList
  have hcut := cut_scan (nameRunRe_consuming halnum) text.toList
  obtain ⟨ps₁, ps₂, hps, hbefore, hrest⟩ := hrun.start halnum hspaces hcut hsource
  obtain ⟨first, rest, rfl, hfirst, hgapped⟩ := hrun.words
  rw [hps] at hcut
  have hstarts : NoWord isAlnum (([] : List Char).reverse ++ ((source ps₁).reverse ++ [])).head? := by
    rw [List.reverse_nil, List.nil_append, List.append_nil, List.head?_reverse, hbefore]
    exact hrun.starts
  obtain ⟨qs₁, x, y, qs₂, rfl, -, hpart⟩ := run_found halnum hrun.stops hrun.right
    (List.nil_append (_ :: rest)).symm (by simp) hfirst hgapped
    (fun hnil => by rw [hnil] at htwo; cases htwo; contradiction) hcut.suffix hrest hstarts
    (fun c hc => hspaces c (by rw [← hsource, hps, source_append]; simp [hc]))
  exact List.ne_nil_of_mem (mem_findProbableNames.mpr
    ⟨x ++ (first ++ y), mem_findall.mpr ⟨ps₁ ++ qs₁, qs₂, by rw [hps, List.append_assoc]⟩,
      isExcused_eq_false hpart hphrase, rfl⟩)

/-- In every state of every run from a store without content, under the real filter: the
    reason stored with a review or a layoff event, and shown with it in the queue, is that of
    its own texts; what names somebody is listed before whatever does not; and a text with a
    plain name is flagged. -/
theorem named_items_go_first {isAlnum : Char → Bool} (halnum : AsciiAlnum isAlnum) (p : Platform)
    (hp : p.scanForFlaggedContent = scanForFlaggedContent isAlnum) (es : List (Request × Draws))
    (s : Server) (hreviews : s.db.reviews.rows = []) (hlayoffs : s.db.layoffEvents.rows = [])
    (place : Nat → Uuid → Nat) :
    let db := ((Api p).exec es s).db
    FlaggedByText isAlnum db ∧
    (mergedQueue place db).Pairwise (fun a b =>
      NamesSomeone isAlnum (db.textsOf b) → NamesSomeone isAlnum (db.textsOf a)) ∧
    ∀ entry ∈ mergedQueue place db,
      entry.flaggedReason = scanForFlaggedContent isAlnum (db.textsOf entry) ∧
      ((∃ text, some text ∈ db.textsOf entry ∧ HasPlainName isAlnum text) →
        entry.flagged = true) := by
  intro db
  have hflagged : FlaggedByText isAlnum db := by
    refine exec_flaggedByText hp es s ⟨fun r hr => ?_, fun e he => ?_⟩
    · rw [hreviews] at hr
      cases hr
    · rw [hlayoffs] at he
      cases he
  have hreason : ∀ entry ∈ mergedQueue place db,
      entry.flaggedReason = scanForFlaggedContent isAlnum (db.textsOf entry) :=
    fun entry hentry => flaggedReason_of_mem_queue hflagged hentry
  have hnamed : ∀ entry ∈ mergedQueue place db,
      (entry.flagged = true ↔ NamesSomeone isAlnum (db.textsOf entry)) := by
    intro entry hentry
    rw [ModerationQueueEntry.flagged, hreason entry hentry, scan_isSome_iff]
  refine ⟨hflagged, ?_, fun entry hentry => ⟨hreason entry hentry, ?_⟩⟩
  · refine (mergedQueue_isQueueOf place db).flagged_first.imp_of_mem fun {a b} ha hb h hb' => ?_
    exact (hnamed a ha).mp (h ((hnamed b hb).mpr hb'))
  · rintro ⟨text, htext, hplain⟩
    exact (hnamed entry hentry).mpr ⟨text, htext, hplain.found halnum⟩

def filteringPlatform : Platform :=
  { smallPlatform with scanForFlaggedContent := scanForFlaggedContent Char.isAlphanum }

/-- A review without a name, and then one with a name. -/
def namingRun : List (Request × Draws) :=
  [(.submitReview smallReview (some "alice"), drawsAt 0 20),
    (.submitReview { smallReview with prose := "Al Bo was rude" } (some "bob"), drawsAt 1 30)]

theorem namingRun_listed :
    let db := ((Api filteringPlatform).exec namingRun (.start smallDb)).db
    (mergedQueue (fun _ _ => 0) db).map (fun entry => (entry.itemId, entry.flaggedReason)) =
        [(30, some "possible personal name detected: \"Al Bo\""), (20, none)] ∧
      ∀ entry ∈ mergedQueue (fun _ _ => 0) db,
        entry.flaggedReason = scanForFlaggedContent Char.isAlphanum (db.textsOf entry) :=
  ⟨by decide +kernel, fun entry hentry =>
    ((named_items_go_first (fun _ _ => rfl) filteringPlatform rfl namingRun (.start smallDb) rfl rfl
      fun _ _ => 0).2.2 entry hentry).1⟩

end LinkedOut
