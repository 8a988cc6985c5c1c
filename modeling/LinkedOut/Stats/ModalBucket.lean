/-
  The modal tenure bucket and the rounded percentages agree.

  `max` takes the first of the greatest counts and the largest-remainder method serves the
  earlier of two equal counts first, so the bucket that is reported as modal has a greatest
  percentage (`rounding_agrees_with_mode`).
-/
import LinkedOut.Percentages.Rounding
import LinkedOut.Stats.Reference

namespace LinkedOut

section

variable {κ : Type}

/-- The fold moves on from an entry only to a greater one, so it ends at the first of the
    greatest: an entry as great is the same one or comes later. -/
theorem foldl_first_greatest (cs : List (κ × Nat)) (best : κ × Nat) :
    let r := cs.foldl (fun best d => if best.2 < d.2 then d else best) best
    (r = best ∨ best.2 < r.2) ∧
      ∀ c ∈ cs, c.2 < r.2 ∨ (c.2 = r.2 ∧ (c = r ∨ [r, c].Sublist (best :: cs))) := by
  induction cs generalizing best with
  | nil => exact ⟨Or.inl rfl, fun c hc => by cases hc⟩
  | cons d cs ih =>
    rw [List.foldl_cons]
    by_cases hlt : best.2 < d.2
    · rw [if_pos hlt]
      obtain ⟨hmoved, hall⟩ := ih d
      refine ⟨Or.inr ?_, fun c hc => ?_⟩
      · rcases hmoved with heq | hmore
        · rw [heq]
          exact hlt
        · exact hlt.trans hmore
      · rcases List.mem_cons.mp hc with rfl | hc
        · rcases hmoved with heq | hmore
          · exact Or.inr ⟨by rw [heq], Or.inl heq.symm⟩
          · exact Or.inl hmore
        · refine (hall c hc).imp_right fun ⟨htie, hplace⟩ => ⟨htie, hplace.imp_right fun hsub => ?_⟩
          exact hsub.trans (List.sublist_cons_self _ _)
    · rw [if_neg hlt]
      obtain ⟨hmoved, hall⟩ := ih best
      refine ⟨hmoved, fun c hc => ?_⟩
      rcases List.mem_cons.mp hc with rfl | hc
      · rcases hmoved with heq | hmore
        · rw [heq]
          rcases Nat.lt_or_ge c.2 best.2 with hless | hge
          · exact Or.inl hless
          · exact Or.inr ⟨by omega, Or.inr (by simp)⟩
        · exact Or.inl (by omega)
      · refine (hall c hc).imp_right fun ⟨htie, hplace⟩ => ⟨htie, hplace.imp_right fun hsub => ?_⟩
        exact hsub.trans (List.Sublist.cons_cons _ (List.sublist_cons_self _ _))

/-- The modal key belongs to the first row with a greatest count. -/
theorem modalKey_first {counts : List (κ × Nat)} {key : κ} (h : modalKey counts = some key) :
    ∃ c ∈ counts, c.1 = key ∧
      ∀ d ∈ counts, d.2 < c.2 ∨ (d.2 = c.2 ∧ (d = c ∨ [c, d].Sublist counts)) := by
  cases counts with
  | nil => cases h
  | cons best cs =>
    obtain ⟨hmem, -, -⟩ := foldl_greatest cs best
    obtain ⟨hmoved, hall⟩ := foldl_first_greatest cs best
    refine ⟨_, List.mem_cons.mpr hmem, Option.some.inj h, fun d hd => ?_⟩
    rcases List.mem_cons.mp hd with rfl | hd
    · rcases hmoved with heq | hmore
      · exact Or.inr ⟨by rw [heq], Or.inl heq.symm⟩
      · exact Or.inl hmore
    · exact hall d hd

variable [DecidableEq κ]

/-- The modal key has a greatest percentage. -/
theorem modalKey_tenths {counts : List (κ × Nat)} {total : Nat} {key : κ} (hpos : 0 < total)
    (hkeys : (counts.map Prod.fst).Nodup) (hsum : (counts.map Prod.snd).sum = total)
    (h : modalKey counts = some key) :
    ∃ m ∈ distributionWithPercentages counts total, m.1 = key ∧
      ∀ b ∈ distributionWithPercentages counts total, b.2.tenths ≤ m.2.tenths := by
  obtain ⟨c, hc, hkey, hfirst⟩ := modalKey_first h
  rw [distribution_eq hpos hkeys hsum]
  refine ⟨_, List.mem_map_of_mem hc, hkey, fun b hb => ?_⟩
  obtain ⟨d, hd, rfl⟩ := List.mem_map.mp hb
  rcases hfirst d hd with hless | ⟨htie, rfl | hlater⟩
  · exact tenthsOf_mono hc hless
  · exact Nat.le_refl _
  · exact (tenthsOf_tie (List.Nodup.of_map _ hkeys) hlater htie.symm).1

end

/-- Rounding keeps the order of the counts, and in every full payload over one snapshot the
    modal tenure bucket has a greatest percentage. -/
theorem rounding_agrees_with_mode :
    (∀ {κ : Type} [DecidableEq κ] (counts : List (κ × Nat)) (total : Nat), 0 < total →
      (counts.map Prod.fst).Nodup → (counts.map Prod.snd).sum = total →
        KeepsOrder (distributionWithPercentages counts total)) ∧
    ∀ (p : Platform) (db : Db) (companyId : Uuid) (stats : FullStats),
      computeCompanyStats p (fun _ => db) companyId = .ok (.full stats) →
        ∃ m ∈ stats.avgTenureBucket.distribution, m.1 = stats.avgTenureBucket.modalBucket ∧
          ∀ b ∈ stats.avgTenureBucket.distribution, b.2.tenths ≤ m.2.tenths := by
  refine ⟨fun counts total => distribution_keepsOrder counts total,
    fun p db companyId stats hfull => ?_⟩
  obtain ⟨-, hpos, htotal, -, hmode, htenure, -, -⟩ := computeCompanyStats_full hfull
  rw [htenure, htotal]
  refine modalKey_tenths hpos ?_ ?_ hmode
  · rw [keys_fullEnumCounts]
    exact TenureBucket.members_nodup
  · exact sum_fullEnumCounts TenureBucket.members TenureBucket.members_nodup
      TenureBucket.mem_members db Review.tenureBucket companyId

/-- Three equal thirds, and two reviews of one tenure. -/
theorem thirds_and_reviewedDb :
    KeepsOrder (distributionWithPercentages [("a", 1), ("b", 1), ("c", 1)] 3) ∧
      ∃ stats, computeCompanyStats lowThreshold (fun _ => reviewedDb) 5 = .ok (.full stats) ∧
        ∃ m ∈ stats.avgTenureBucket.distribution, m.1 = stats.avgTenureBucket.modalBucket ∧
          ∀ b ∈ stats.avgTenureBucket.distribution, b.2.tenths ≤ m.2.tenths :=
  ⟨rounding_agrees_with_mode.1 _ 3 (by decide) (by decide) (by decide), _, rfl,
    rounding_agrees_with_mode.2 lowThreshold reviewedDb 5 _ rfl⟩

end LinkedOut
