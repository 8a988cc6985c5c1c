/-
  One scan of a text for the matches of an expression, from the left, without overlap.

  * `scan` cuts the text into pieces: a match that is taken (`hit`), or a letter where
    nothing matches (`kept`). `sub` puts a replacement for every match.
  * `Cut` is what the pieces say of the text (`cut_scan`), also of any rest of them
    (`Cut.suffix`).
  * `replaced_word`: a word of the replaced text that has a letter the replacement lacks, and
    none of its two outer letters, is a word of kept letters.
  * `scan_comap`: renaming the letters commutes with scanning, so letters can carry marks.
-/
import LinkedOut.Regex

namespace LinkedOut

/-- A piece of a scanned text. -/
inductive Piece (α : Type) where
  | kept (x : α)
  | hit (w : List α)
  deriving DecidableEq

namespace Piece

variable {α β : Type}

/-- The part of the text. -/
def source : Piece α → List α
  | kept x => [x]
  | hit w => w

/-- What stands there once matches are replaced. -/
def replaced (repl : List α) : Piece α → List α
  | kept x => [x]
  | hit _ => repl

def map (f : α → β) : Piece α → Piece β
  | kept x => kept (f x)
  | hit w => hit (w.map f)

end Piece

namespace Regex

variable {α β : Type}

def source (ps : List (Piece α)) : List α := ps.flatMap Piece.source

def replaced (repl : List α) (ps : List (Piece α)) : List α := ps.flatMap (Piece.replaced repl)

/-- The pieces of a text, behind its first letters up to the position, reversed; the next
    `skip` letters belong to a match that is taken already. -/
def scan (r : Regex α) : List α → Nat → List α → List (Piece α)
  | _, _, [] => []
  | b, skip + 1, x :: a => scan r (x :: b) skip a
  | b, 0, x :: a =>
    match (r.ends ⟨b, x :: a⟩).head? with
    | none => .kept x :: scan r (x :: b) 0 a
    | some d =>
      if d.after.length ≤ a.length then
        .hit ((x :: a).take (a.length + 1 - d.after.length)) ::
          scan r (x :: b) (a.length - d.after.length) a
      else .kept x :: scan r (x :: b) 0 a

/-- The matches, as `re.finditer` gives them. -/
def findall (r : Regex α) (text : List α) : List (List α) :=
  (scan r [] 0 text).filterMap fun
    | .kept _ => none
    | .hit w => some w

/-- `re.sub`, with a text to put for every match. -/
def sub (r : Regex α) (repl text : List α) : List α := replaced repl (scan r [] 0 text)

/-- No match anywhere in the text. -/
def Absent (r : Regex α) (text : List α) : Prop :=
  ∀ u w v, text = u ++ w ++ v → ¬ r.Spells u.reverse w v

/-- Matches are not empty. -/
def Consuming (r : Regex α) : Prop := ∀ b w a, r.Spells b w a → w ≠ []

@[simp] theorem source_nil : source ([] : List (Piece α)) = [] := rfl

@[simp] theorem source_cons (p : Piece α) (ps : List (Piece α)) :
    source (p :: ps) = p.source ++ source ps := rfl

@[simp] theorem source_append (ps qs : List (Piece α)) :
    source (ps ++ qs) = source ps ++ source qs := List.flatMap_append

@[simp] theorem replaced_nil (repl : List α) : replaced repl [] = [] := rfl

@[simp] theorem replaced_cons (repl : List α) (p : Piece α) (ps : List (Piece α)) :
    replaced repl (p :: ps) = p.replaced repl ++ replaced repl ps := rfl

@[simp] theorem replaced_append (repl : List α) (ps qs : List (Piece α)) :
    replaced repl (ps ++ qs) = replaced repl ps ++ replaced repl qs := List.flatMap_append

@[simp] theorem source_map_kept (w : List α) : source (w.map .kept) = w := by
  induction w with
  | nil => rfl
  | cons x w ih => rw [List.map_cons, source_cons, ih]; rfl

@[simp] theorem replaced_map_kept (repl w : List α) : replaced repl (w.map .kept) = w := by
  induction w with
  | nil => rfl
  | cons x w ih => rw [List.map_cons, replaced_cons, ih]; rfl

/-! ## What the pieces say of the text -/

/-- Behind the text `b`, reversed, the pieces are those of a scan. -/
def Cut (r : Regex α) : List α → List (Piece α) → Prop
  | _, [] => True
  | b, .kept x :: ps => (∀ w a, x :: source ps = w ++ a → ¬ r.Spells b w a) ∧ Cut r (x :: b) ps
  | b, .hit w :: ps => w ≠ [] ∧ r.Preferred b w (source ps) ∧ Cut r (w.reverse ++ b) ps

theorem scan_skip (r : Regex α) (b w a : List α) :
    scan r b w.length (w ++ a) = scan r (w.reverse ++ b) 0 a := by
  induction w generalizing b with
  | nil => rfl
  | cons x w ih =>
    rw [List.length_cons, List.cons_append, scan, ih]
    simp

/-- What a scan does at a letter. -/
theorem scan_cons (r : Regex α) (hr : r.Consuming) (b : List α) (x : α) (a : List α) :
    (scan r b 0 (x :: a) = .kept x :: scan r (x :: b) 0 a ∧
        ∀ w a', x :: a = w ++ a' → ¬ r.Spells b w a') ∨
      ∃ w a', x :: a = w ++ a' ∧ w ≠ [] ∧ r.Preferred b w a' ∧
        scan r b 0 (x :: a) = .hit w :: scan r (w.reverse ++ b) 0 a' := by
  rw [scan]
  match hends : r.ends ⟨b, x :: a⟩ with
  | [] => exact Or.inl ⟨rfl, (ends_eq_nil_iff r ⟨b, x :: a⟩).mp hends⟩
  | d :: rest =>
    have hd : d ∈ r.ends ⟨b, x :: a⟩ := by
      rw [hends]
      exact List.mem_cons_self
    obtain ⟨w, hafter, hbefore, hw⟩ := (mem_ends r _ _).mp hd
    dsimp only at hafter hbefore
    have hne := hr _ _ _ hw
    obtain ⟨y, u, rfl⟩ := List.exists_cons_of_ne_nil hne
    obtain ⟨rfl, hrest : a = u ++ d.after⟩ := List.cons.inj hafter
    have hlen : a.length = u.length + d.after.length := by rw [hrest, List.length_append]
    refine Or.inr ⟨x :: u, d.after, hafter, hne, ?_, ?_⟩
    · unfold Preferred
      rw [← hafter, hends, List.head?_cons, ← hbefore]
    · have htake : a.length + 1 - d.after.length = (x :: u).length := by
        rw [List.length_cons]
        omega
      have hskip : a.length - d.after.length = u.length := by omega
      rw [List.head?_cons]
      dsimp only
      rw [if_pos (by omega), htake, hskip, hafter, List.take_left, hrest, scan_skip]
      simp

theorem source_cut_scan {r : Regex α} (hr : r.Consuming) (b x : List α) :
    source (scan r b 0 x) = x ∧ r.Cut b (scan r b 0 x) := by
  induction h : x.length using Nat.strongRecOn generalizing b x with
  | _ n ih =>
    subst h
    cases x with
    | nil => exact ⟨by simp [scan], by simp [scan, Cut]⟩
    | cons x a =>
      rcases scan_cons r hr b x a with ⟨hscan, hnone⟩ | ⟨w, a', hx, hne, hw, hscan⟩
      · obtain ⟨hsource, hcut⟩ := ih a.length (by simp) (x :: b) a rfl
        rw [hscan, source_cons, hsource]
        exact ⟨rfl, by rw [Cut, hsource]; exact ⟨hnone, hcut⟩⟩
      · have hlt : a'.length < (x :: a).length := by
          have hpos := List.length_pos_iff.mpr hne
          rw [hx, List.length_append]
          omega
        obtain ⟨hsource, hcut⟩ := ih a'.length hlt (w.reverse ++ b) a' rfl
        rw [hscan, source_cons, hsource]
        exact ⟨hx.symm, by rw [Cut, hsource]; exact ⟨hne, hw, hcut⟩⟩

theorem source_scan {r : Regex α} (hr : r.Consuming) (text : List α) :
    source (scan r [] 0 text) = text := (source_cut_scan hr [] text).1

theorem cut_scan {r : Regex α} (hr : r.Consuming) (text : List α) :
    r.Cut [] (scan r [] 0 text) := (source_cut_scan hr [] text).2

/-- The rest of the pieces is a scan of the rest of the text. -/
theorem Cut.suffix {r : Regex α} {b : List α} {ps qs : List (Piece α)} (h : r.Cut b (ps ++ qs)) :
    r.Cut ((source ps).reverse ++ b) qs := by
  induction ps generalizing b with
  | nil => exact h
  | cons p ps ih =>
    have hp : r.Cut (p.source.reverse ++ b) (ps ++ qs) := by
      cases p with
      | kept x => exact h.2
      | hit w => exact h.2.2
    have hqs := ih hp
    rw [source_cons, List.reverse_append, List.append_assoc]
    exact hqs

/-- A word of kept letters starts no match. -/
theorem Cut.not_spells {r : Regex α} {b : List α} {ps qs : List (Piece α)} {w : List α}
    (h : r.Cut b (ps ++ (w.map .kept ++ qs))) (hw : w ≠ []) :
    ¬ r.Spells ((source ps).reverse ++ b) w (source qs) := by
  obtain ⟨x, u, rfl⟩ := List.exists_cons_of_ne_nil hw
  have hcut := h.suffix
  rw [List.map_cons, List.cons_append] at hcut
  exact hcut.1 _ _ (by simp)

/-- A hit is a match. -/
theorem Cut.spells {r : Regex α} {b : List α} {ps qs : List (Piece α)} {w : List α}
    (h : r.Cut b (ps ++ .hit w :: qs)) :
    w ≠ [] ∧ r.Spells ((source ps).reverse ++ b) w (source qs) :=
  ⟨h.suffix.1, h.suffix.2.1.spells⟩

/-- A place in the text is between two pieces or inside a match. -/
theorem source_split {ps : List (Piece α)} {s t : List α} (h : source ps = s ++ t) :
    (∃ ps₁ ps₂, ps = ps₁ ++ ps₂ ∧ source ps₁ = s ∧ source ps₂ = t) ∨
      ∃ ps₁ u v ps₂, ps = ps₁ ++ .hit (u ++ v) :: ps₂ ∧ u ≠ [] ∧ v ≠ [] ∧
        s = source ps₁ ++ u ∧ t = v ++ source ps₂ := by
  induction ps generalizing s with
  | nil =>
    obtain ⟨rfl, rfl⟩ := List.append_eq_nil_iff.mp h.symm
    exact Or.inl ⟨[], [], rfl, rfl, rfl⟩
  | cons p ps ih =>
    rw [source_cons] at h
    rcases List.append_eq_append_iff.mp h with ⟨s', rfl, hrest⟩ | ⟨w, hp, hrest⟩
    · rcases ih hrest with ⟨ps₁, ps₂, rfl, rfl, ht⟩ | ⟨ps₁, u, v, ps₂, rfl, hu, hv, rfl, ht⟩
      · exact Or.inl ⟨p :: ps₁, ps₂, rfl, rfl, ht⟩
      · exact Or.inr ⟨p :: ps₁, u, v, ps₂, rfl, hu, hv, by simp, ht⟩
    · rcases List.eq_nil_or_concat' s with rfl | ⟨s, x, rfl⟩
      · exact Or.inl ⟨[], p :: ps, rfl, rfl, h⟩
      cases w with
      | nil => exact Or.inl ⟨[p], ps, rfl, by simpa using hp, hrest.symm⟩
      | cons y w =>
        cases p with
        | kept z =>
          have hlen := congrArg List.length hp
          simp only [Piece.source, List.length_append, List.length_cons,
            List.length_nil] at hlen
          omega
        | hit v =>
          obtain rfl : v = s ++ [x] ++ y :: w := hp
          exact Or.inr ⟨[], s ++ [x], y :: w, ps, rfl, by simp, by simp, rfl, hrest⟩

/-- Where a match can always start one letter earlier, letters behind a kept one are kept. -/
theorem Cut.kept_on {r : Regex α} {b : List α} {ps qs : List (Piece α)} {x : α} {w t : List α}
    (hcut : r.Cut b (ps ++ .kept x :: qs)) (hsource : source qs = w ++ t)
    (hextend : ∀ y ∈ x :: w, ∀ b v a, r.Spells (y :: b) v a → r.Spells b (y :: v) a) :
    ∃ qs', qs = w.map .kept ++ qs' ∧ source qs' = t := by
  induction w generalizing ps x qs with
  | nil => exact ⟨qs, rfl, hsource⟩
  | cons y w ih =>
    cases qs with
    | nil => cases hsource
    | cons p qs =>
      cases p with
      | kept z =>
        obtain ⟨rfl, hrest⟩ := List.cons.inj hsource
        have hnext : r.Cut b ((ps ++ [.kept x]) ++ .kept z :: qs) := by simpa using hcut
        obtain ⟨qs', rfl, ht⟩ := ih hnext hrest fun y hy => hextend y (List.mem_cons_of_mem _ hy)
        exact ⟨qs', rfl, ht⟩
      | hit v =>
        have hhit := hcut.suffix.2.2.1.spells
        have hstart := hextend x List.mem_cons_self _ _ _ hhit
        exact absurd hstart (hcut.suffix.1 _ _ rfl)

/-- A word whose letters end no match and can always start one earlier is part of one match,
    or all of it is kept. -/
theorem Cut.word {r : Regex α} {b : List α} {ps : List (Piece α)} (hcut : r.Cut b ps)
    {s w t : List α} (hw : w ≠ []) (hsource : source ps = s ++ (w ++ t))
    (hlast : ∀ b v a, r.Spells b v a → ∃ u y, v = u ++ [y] ∧ y ∉ w)
    (hextend : ∀ x ∈ w, ∀ b v a, r.Spells (x :: b) v a → r.Spells b (x :: v) a) :
    (∃ ps₁ u v ps₂, ps = ps₁ ++ .hit (u ++ (w ++ v)) :: ps₂ ∧ s = source ps₁ ++ u) ∨
      ∃ ps₁ ps₂, ps = ps₁ ++ (w.map .kept ++ ps₂) ∧ source ps₁ = s ∧ source ps₂ = t := by
  -- a match that takes the first letter takes them all
  have hcover : ∀ {ps₁ ps₂ : List (Piece α)} {u v : List α}, ps = ps₁ ++ .hit (u ++ v) :: ps₂ →
      v ≠ [] → w ++ t = v ++ source ps₂ → ∃ v', v = w ++ v' := by
    rintro ps₁ ps₂ u v rfl hv hrest
    rcases List.append_eq_append_iff.mp hrest with ⟨v', hv', -⟩ | ⟨w', hw', -⟩
    · exact ⟨v', hv'⟩
    · obtain ⟨m, y, hm, hy⟩ := hlast _ _ _ hcut.spells.2
      obtain ⟨v, z, rfl⟩ := (List.eq_nil_or_concat' v).resolve_left hv
      rw [← List.append_assoc] at hm
      obtain rfl : z = y := List.singleton_inj.mp (List.append_inj' hm rfl).2
      exact absurd (by rw [hw']; simp) hy
  rcases source_split hsource with ⟨ps₁, ps₂, hps, rfl, ht⟩ | ⟨ps₁, u, v, ps₂, hps, -, hv, rfl, ht⟩
  · match ps₂, hps, ht with
    | [], _, ht => exact absurd (List.append_eq_nil_iff.mp ht.symm).1 hw
    | .hit v :: ps₂, hps, ht =>
      have hv : v ≠ [] := by
        rw [hps] at hcut
        exact hcut.spells.1
      obtain ⟨v', rfl⟩ := hcover (u := []) hps hv ht.symm
      exact Or.inl ⟨ps₁, [], v', ps₂, hps, by simp⟩
    | .kept y :: ps₂, hps, ht =>
      obtain ⟨x, w, rfl⟩ := List.exists_cons_of_ne_nil hw
      obtain ⟨rfl, hrest⟩ := List.cons.inj ht
      rw [hps] at hcut
      obtain ⟨ps₃, rfl, hafter⟩ := hcut.kept_on hrest hextend
      exact Or.inr ⟨ps₁, ps₃, hps, rfl, hafter⟩
  · obtain ⟨v', rfl⟩ := hcover hps hv ht
    exact Or.inl ⟨ps₁, u, v', ps₂, hps, rfl⟩

theorem mem_findall {r : Regex α} {text w : List α} :
    w ∈ findall r text ↔ ∃ ps₁ ps₂, scan r [] 0 text = ps₁ ++ .hit w :: ps₂ := by
  rw [findall, List.mem_filterMap]
  constructor
  · rintro ⟨p, hp, hw⟩
    cases p with
    | kept x => cases hw
    | hit v =>
      obtain rfl : v = w := Option.some.inj hw
      exact List.append_of_mem hp
  · rintro ⟨ps₁, ps₂, hps⟩
    exact ⟨.hit w, by rw [hps]; simp, rfl⟩

/-- Nothing is replaced in a text without a match. -/
theorem sub_of_absent {r : Regex α} (hr : r.Consuming) {text : List α} (h : r.Absent text)
    (repl : List α) : sub r repl text = text := by
  have hsource := source_scan hr text
  have hcut := cut_scan hr text
  have hkept : ∀ p ∈ scan r [] 0 text, p.replaced repl = p.source := by
    intro p hp
    cases p with
    | kept x => rfl
    | hit w =>
      obtain ⟨ps, qs, hps⟩ := List.append_of_mem hp
      rw [hps] at hcut hsource
      have hspells := hcut.spells.2
      rw [List.append_nil] at hspells
      exact absurd hspells (h _ w _ (by rw [← hsource]; simp [Piece.source]))
  unfold sub replaced
  rw [List.flatMap_congr hkept]
  exact hsource

/-! ## Words of a replaced text -/

section

variable {q : α → Bool} {repl : List α}

/-- A letter that no replacement has was kept. -/
theorem replaced_letter {x : α} (hx : x ∉ repl) {ps : List (Piece α)} {s t : List α}
    (h : replaced repl ps = s ++ x :: t) :
    ∃ ps₁ ps₂, ps = ps₁ ++ .kept x :: ps₂ ∧ replaced repl ps₁ = s ∧ replaced repl ps₂ = t := by
  induction ps generalizing s with
  | nil => simp at h
  | cons p ps ih =>
    cases p with
    | kept y =>
      cases s with
      | nil =>
        obtain ⟨rfl, ht⟩ := List.cons.inj h
        exact ⟨[], ps, rfl, rfl, ht⟩
      | cons z s =>
        obtain ⟨rfl, ht⟩ := List.cons.inj h
        obtain ⟨ps₁, ps₂, rfl, hs, ht⟩ := ih ht
        exact ⟨.kept y :: ps₁, ps₂, rfl, by rw [replaced_cons, hs]; rfl, ht⟩
    | hit w =>
      have hprefix : ∃ s', s = repl ++ s' ∧ replaced repl ps = s' ++ x :: t := by
        change repl ++ replaced repl ps = s ++ x :: t at h
        rcases List.append_eq_append_iff.mp h with ⟨s', rfl, ht⟩ | ⟨s', hrepl, ht⟩
        · exact ⟨s', rfl, ht⟩
        · cases s' with
          | nil =>
            rw [List.append_nil] at hrepl
            exact ⟨[], by rw [hrepl, List.append_nil], ht.symm⟩
          | cons y s' =>
            obtain ⟨rfl, -⟩ := List.cons.inj ht
            exact absurd (by rw [hrepl]; simp) hx
      obtain ⟨s', rfl, ht⟩ := hprefix
      obtain ⟨ps₁, ps₂, rfl, hs, ht⟩ := ih ht
      exact ⟨.hit w :: ps₁, ps₂, rfl, by rw [replaced_cons, hs]; rfl, ht⟩

/-- A word at the front, when the replacement starts with none of its letters. -/
theorem replaced_front (hopen : ∃ x m, repl = x :: m ∧ q x = false) {ps : List (Piece α)}
    {w t : List α} (hw : ∀ x ∈ w, q x = true) (h : replaced repl ps = w ++ t) :
    ∃ ps₂, ps = w.map .kept ++ ps₂ ∧ replaced repl ps₂ = t := by
  induction w generalizing ps with
  | nil => exact ⟨ps, rfl, h⟩
  | cons x w ih =>
    obtain ⟨y, m, rfl, hy⟩ := hopen
    have hx := hw x List.mem_cons_self
    cases ps with
    | nil => cases h
    | cons p ps =>
      cases p with
      | kept z =>
        obtain ⟨rfl, hrest⟩ := List.cons.inj h
        obtain ⟨ps₂, rfl, ht⟩ := ih (fun x hx => hw x (List.mem_cons_of_mem _ hx)) hrest
        exact ⟨ps₂, rfl, ht⟩
      | hit v =>
        obtain ⟨rfl, -⟩ := List.cons.inj h
        rw [hy] at hx
        cases hx

/-- A word at the back, when the replacement ends with none of its letters. -/
theorem replaced_back (hopen : ∃ x m, repl = x :: m ∧ q x = false)
    (hclose : ∃ m x, repl = m ++ [x] ∧ q x = false) {ps : List (Piece α)} {s w : List α}
    (hw : ∀ x ∈ w, q x = true) (h : replaced repl ps = s ++ w) :
    ∃ ps₁, ps = ps₁ ++ w.map .kept ∧ replaced repl ps₁ = s := by
  induction ps generalizing s with
  | nil =>
    obtain ⟨rfl, rfl⟩ := List.append_eq_nil_iff.mp h.symm
    exact ⟨[], rfl, rfl⟩
  | cons p ps ih =>
    have hrest : ∀ s', replaced repl ps = s' ++ w → s = p.replaced repl ++ s' →
        ∃ ps₁, p :: ps = ps₁ ++ w.map .kept ∧ replaced repl ps₁ = s := by
      rintro s' ht rfl
      obtain ⟨ps₁, rfl, hs⟩ := ih ht
      exact ⟨p :: ps₁, rfl, by rw [replaced_cons, hs]⟩
    rw [replaced_cons] at h
    rcases List.append_eq_append_iff.mp h with ⟨s', hs, ht⟩ | ⟨w', hp, ht⟩
    · exact hrest s' ht hs
    · cases p with
      | kept x =>
        cases s with
        | nil =>
          have hall : replaced repl (.kept x :: ps) = w ++ [] := by
            rw [replaced_cons, h, List.append_nil, List.nil_append]
          obtain ⟨ps₂, hps, hnil⟩ := replaced_front hopen hw hall
          refine ⟨[], ?_, rfl⟩
          rw [hps]
          cases ps₂ with
          | nil => rw [List.append_nil, List.nil_append]
          | cons p ps₂ =>
            obtain ⟨y, m, rfl, -⟩ := hopen
            cases p <;> cases hnil
        | cons y s =>
          obtain ⟨rfl, hs⟩ := List.cons.inj hp
          obtain ⟨rfl, rfl⟩ := List.append_eq_nil_iff.mp hs.symm
          exact hrest [] ht.symm rfl
      | hit v =>
        obtain ⟨m, x, hrepl, hx⟩ := hclose
        rcases List.eq_nil_or_concat' w' with rfl | ⟨w', y, rfl⟩
        · rw [List.append_nil] at hp
          exact hrest [] ht.symm (by rw [List.append_nil, hp])
        · have hy := hw y (by rw [ht]; simp)
          have hlast : x = y := by
            have hcongr := hrepl.symm.trans hp
            rw [← List.append_assoc] at hcongr
            exact List.singleton_inj.mp (List.append_inj' hcongr rfl).2
          rw [← hlast, hx] at hy
          cases hy

/-- A word that has a letter the replacement lacks, and none of its two outer letters. -/
theorem replaced_word (hopen : ∃ x m, repl = x :: m ∧ q x = false)
    (hclose : ∃ m x, repl = m ++ [x] ∧ q x = false) {ps : List (Piece α)} {s w t : List α}
    (hw : ∀ x ∈ w, q x = true) (hletter : ∃ x ∈ w, x ∉ repl)
    (h : replaced repl ps = s ++ (w ++ t)) :
    ∃ ps₁ ps₂, ps = ps₁ ++ (w.map .kept ++ ps₂) ∧ replaced repl ps₁ = s ∧
      replaced repl ps₂ = t := by
  obtain ⟨x, hx, hout⟩ := hletter
  obtain ⟨u, v, rfl⟩ := List.append_of_mem hx
  have hsplit : replaced repl ps = (s ++ u) ++ x :: (v ++ t) := by
    rw [h]
    simp
  obtain ⟨ps₁, ps₂, rfl, hback, hfront⟩ := replaced_letter hout hsplit
  obtain ⟨qs₁, rfl, hs⟩ := replaced_back hopen hclose
    (fun y hy => hw y (List.mem_append_left _ hy)) hback
  obtain ⟨qs₂, rfl, ht⟩ := replaced_front hopen
    (fun y hy => hw y (List.mem_append_right _ (List.mem_cons_of_mem _ hy))) hfront
  exact ⟨qs₁, qs₂, by simp, hs, ht⟩

/-- A word in a replaced text was kept, one letter after the other. -/
theorem kept_of_spells_sub {r s : Regex α} (hopen : ∃ x m, repl = x :: m ∧ q x = false)
    (hclose : ∃ m x, repl = m ++ [x] ∧ q x = false)
    (hword : ∀ b w a, r.Spells b w a → (∀ x ∈ w, q x = true) ∧ ∃ x ∈ w, x ∉ repl)
    {text u w v : List α} (hsplit : s.sub repl text = u ++ w ++ v)
    {b a : List α} (hspells : r.Spells b w a) :
    ∃ ps₁ ps₂, s.scan [] 0 text = ps₁ ++ (w.map .kept ++ ps₂) := by
  obtain ⟨hw, hletter⟩ := hword _ w _ hspells
  rw [List.append_assoc] at hsplit
  obtain ⟨ps₁, ps₂, hps, -, -⟩ := replaced_word hopen hclose hw hletter hsplit
  exact ⟨ps₁, ps₂, hps⟩

/-- The kept words of a replaced text stand in the text, in the same order. -/
theorem Plain.absent_sub_of_absent {r s : Regex α} (hr : r.Plain) (hs : s.Consuming)
    (hopen : ∃ x m, repl = x :: m ∧ q x = false)
    (hclose : ∃ m x, repl = m ++ [x] ∧ q x = false)
    (hword : ∀ b w a, r.Spells b w a → (∀ x ∈ w, q x = true) ∧ ∃ x ∈ w, x ∉ repl)
    {text : List α} (h : r.Absent text) : r.Absent (s.sub repl text) := by
  intro u w v hsplit hspells
  obtain ⟨ps₁, ps₂, hps⟩ := kept_of_spells_sub hopen hclose hword hsplit hspells
  have hsource := source_scan hs text
  rw [hps] at hsource
  exact h (source ps₁) w (source ps₂) (by rw [← hsource]; simp) (hr.spells hspells)

/-- A plain expression is gone once its own matches are replaced. -/
theorem Plain.absent_sub {r : Regex α} (hr : r.Plain) (hcons : r.Consuming)
    (hopen : ∃ x m, repl = x :: m ∧ q x = false)
    (hclose : ∃ m x, repl = m ++ [x] ∧ q x = false)
    (hword : ∀ b w a, r.Spells b w a → (∀ x ∈ w, q x = true) ∧ ∃ x ∈ w, x ∉ repl)
    (text : List α) : r.Absent (r.sub repl text) := by
  intro u w v hsplit hspells
  obtain ⟨ps₁, ps₂, hps⟩ := kept_of_spells_sub hopen hclose hword hsplit hspells
  have hcut := cut_scan hcons text
  rw [hps] at hcut
  exact hcut.not_spells (hcons _ _ _ hspells) (hr.spells hspells)

end

/-! ## Renaming letters -/

/-- The expression over letters that `f` reads. -/
def comap (f : α → β) : Regex β → Regex α
  | set p => set fun x => p (f x)
  | look p => look fun x y => p (x.map f) (y.map f)
  | seq r s => seq (comap f r) (comap f s)
  | rep r min max => rep (comap f r) min max

end Regex

def Cursor.map {α β : Type} (f : α → β) (c : Cursor α) : Cursor β :=
  ⟨c.before.map f, c.after.map f⟩

namespace Regex

variable {α β : Type} (f : α → β)

theorem iterate_map {step : Cursor α → List (Cursor α)} {step' : Cursor β → List (Cursor β)}
    (h : ∀ c, (step c).map (Cursor.map f) = step' (c.map f)) (min n : Nat) (c : Cursor α) :
    (iterate step min n c).map (Cursor.map f) = iterate step' min n (c.map f) := by
  induction n generalizing min c with
  | zero =>
    rw [iterate, iterate]
    split <;> rfl
  | succ n ih =>
    rw [iterate, iterate, List.map_append, List.map_flatMap, ← h, List.filter_map,
      List.flatMap_map]
    congr 1
    · rw [show (fun d => decide (d.after.length < (c.map f).after.length)) ∘ Cursor.map f =
        fun d => decide (d.after.length < c.after.length) by
          funext d
          simp [Cursor.map]]
      exact List.flatMap_congr fun d _ => ih (min - 1) d
    · split <;> rfl

theorem ends_comap (r : Regex β) (c : Cursor α) :
    ((r.comap f).ends c).map (Cursor.map f) = r.ends (c.map f) := by
  induction r generalizing c with
  | set p =>
    obtain ⟨b, x⟩ := c
    cases x with
    | nil => rfl
    | cons x a =>
      rw [comap, ends, Cursor.map, List.map_cons, ends]
      split <;> rfl
  | look p =>
    rw [comap, ends, ends, Cursor.map, List.head?_map, List.head?_map]
    split <;> rfl
  | seq r s ihr ihs =>
    rw [comap, ends, ends, ← ihr, List.map_flatMap, List.flatMap_map]
    exact List.flatMap_congr fun d _ => ihs d
  | rep r min max ih =>
    rw [comap, ends, ends, iterate_map f ih]
    simp [Cursor.map]

theorem spells_comap {r : Regex β} {b w a : List α} :
    (r.comap f).Spells b w a ↔ r.Spells (b.map f) (w.map f) (a.map f) := by
  have hends := ends_comap f r ⟨b, w ++ a⟩
  rw [spells_iff_mem, spells_iff_mem, ← List.map_reverse, ← List.map_append, ← List.map_append]
  change _ ↔ Cursor.map f ⟨w.reverse ++ b, a⟩ ∈ r.ends (Cursor.map f ⟨b, w ++ a⟩)
  rw [← hends, List.mem_map]
  constructor
  · exact fun h => ⟨_, h, rfl⟩
  · rintro ⟨d, hd, heq⟩
    obtain ⟨u, hafter, hbefore, -⟩ := (mem_ends _ _ d).mp hd
    have hlen : d.after.length = a.length := by
      have := congrArg (List.length ∘ Cursor.after) heq
      simpa [Cursor.map] using this
    obtain ⟨b', a'⟩ := d
    obtain ⟨rfl, rfl⟩ := List.append_inj' hafter hlen.symm
    rw [← hbefore]
    exact hd

theorem scan_comap (r : Regex β) (b : List α) (skip : Nat) (x : List α) :
    (scan (r.comap f) b skip x).map (Piece.map f) = scan r (b.map f) skip (x.map f) := by
  induction x generalizing b skip with
  | nil => cases skip <;> rfl
  | cons x a ih =>
    cases skip with
    | succ skip => exact ih (x :: b) skip
    | zero =>
      have hends := ends_comap f r ⟨b, x :: a⟩
      rw [List.map_cons, scan, scan, ← List.map_cons]
      change _ = match (r.ends (Cursor.map f ⟨b, x :: a⟩)).head? with
        | none => _
        | some d => _
      rw [← hends, List.head?_map]
      cases ((r.comap f).ends ⟨b, x :: a⟩).head? with
      | none => exact congrArg _ (ih (x :: b) 0)
      | some d =>
        have hlen : (d.map f).after.length = d.after.length := List.length_map _
        have hlen' : (a.map f).length = a.length := List.length_map _
        simp only [Option.map_some, hlen, hlen']
        split
        · simp only [List.map_cons, Piece.map, List.map_take, ih]
        · exact congrArg _ (ih (x :: b) 0)

theorem map_replaced (repl : List α) (ps : List (Piece α)) :
    (replaced repl ps).map f = replaced (repl.map f) (ps.map (Piece.map f)) := by
  induction ps with
  | nil => rfl
  | cons p ps ih =>
    rw [replaced_cons, List.map_append, ih, List.map_cons, replaced_cons]
    cases p <;> rfl

theorem map_source (ps : List (Piece α)) : (source ps).map f = source (ps.map (Piece.map f)) := by
  induction ps with
  | nil => rfl
  | cons p ps ih =>
    rw [source_cons, List.map_append, ih, List.map_cons, source_cons]
    cases p <;> rfl

/-- Replacing commutes with renaming. -/
theorem map_sub (r : Regex β) (repl text : List α) :
    (sub (r.comap f) repl text).map f = sub r (repl.map f) (text.map f) := by
  rw [sub, map_replaced, scan_comap]
  rfl

end Regex

end LinkedOut
