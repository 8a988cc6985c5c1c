/-
  Is a superseded code dead?

  A verification looks at the newest row of its key that is not consumed. Once a newer
  code is consumed, an older one of the same key that nobody has used is the newest
  again: `superseded_code_accepted` is such a run. `newest_code_only`: no superseded
  code is accepted in any run in which the codes of a key are stamped in the order they
  are issued, and in which nobody submits an older usable code while a newer one of its
  key is consumed (`Flow.Revives`).
-/
import LinkedOut.Codes.Agreement

namespace LinkedOut

open OneTimeCode

namespace Flow

variable {γ κ : Type} [Record γ] [OneTimeCode γ κ] [DecidableEq κ] {p : Platform}
  (F : Flow p γ κ)

/-- Since the row was issued, another code has been issued for its key. -/
def Superseded (tr : List ApiStep) (row : γ) : Prop :=
  ∃ w w' r r', [w, w'].Sublist tr ∧ F.issued w = some r ∧ pk r = pk row ∧
    F.issued w' = some r' ∧ key r' = key row

/-- No successful verification meets a row that has been superseded before. -/
def NewestOnly (tr : List ApiStep) : Prop :=
  ∀ i v row, tr[i]? = some v → F.Accepts v → F.target v = some row →
    ¬ F.Superseded (tr.take i) row

/-- The code asked for is stamped later than every code of its key. -/
def StampedInOrder (s : Server) (e : Request × Draws) : Prop :=
  ∀ row ∈ F.asked e s.db, ∀ c ∈ (F.codes s.db).rows, key c = key row → createdAt c < createdAt row

/-- The row is the newest unconsumed one of its key. -/
def NewestUnconsumed (codes : Table γ) (c : γ) : Prop :=
  consumedAt c = none ∧
    ∀ d ∈ codes.rows, key d = key c → consumedAt d = none → createdAt d ≤ createdAt c

/-- The request submits the right code for the newest unconsumed row of its key, which is
    neither expired nor locked, while a newer row of the key is consumed. -/
def Revives (s : Server) (e : Request × Draws) : Prop :=
  ∃ sub ∈ F.submitted e s.db, ∃ c ∈ (F.codes s.db).rows, ∃ c' ∈ (F.codes s.db).rows,
    (key c = sub.key ∧ NewestUnconsumed (F.codes s.db) c) ∧
    (sub.hash = codeHash c ∧ sub.now ≤ expiresAt c ∧
      attempts c < p.settings.otpMaxAttempts) ∧
    key c' = sub.key ∧ consumedAt c' ≠ none ∧ createdAt c < createdAt c'

instance (s : Server) (e : Request × Draws) : Decidable (F.StampedInOrder s e) :=
  inferInstanceAs (Decidable (∀ row ∈ F.asked e s.db, ∀ c ∈ (F.codes s.db).rows,
    key c = key row → createdAt c < createdAt row))

instance (codes : Table γ) (c : γ) : Decidable (NewestUnconsumed codes c) :=
  inferInstanceAs (Decidable (_ ∧ ∀ d ∈ codes.rows, key d = key c → consumedAt d = none →
    createdAt d ≤ createdAt c))

instance (s : Server) (e : Request × Draws) : Decidable (F.Revives s e) :=
  inferInstanceAs (Decidable (∃ sub ∈ F.submitted e s.db, ∃ c ∈ (F.codes s.db).rows,
    ∃ c' ∈ (F.codes s.db).rows, _ ∧ _ ∧ _ ∧ _ ∧ _))

/-! ## The codes stored are the codes issued, in order -/

structure InOrder (tr : List ApiStep) (codes : Table γ) : Prop where
  stored : ∀ w ∈ tr, ∀ row, F.issued w = some row → ∃ c ∈ codes.rows, SameCode row c
  ordered : tr.Pairwise fun w w' => ∀ r r', F.issued w = some r → F.issued w' = some r' →
    key r = key r' → createdAt r < createdAt r'

variable {F} {tr : List ApiStep} {s : Server}

/-- What a step issues is stored. -/
theorem issued_stored {e : Request × Draws} {row : γ}
    (h : F.issued ((Api p).serve e s) = some row) :
    F.asked e s.db = some row ∧ row ∈ (F.codes ((Api p).step e s).2.db).rows := by
  change (if ((Api p).step e s).1.isOk = true then F.asked e s.db else none) = some row at h
  split at h
  · rename_i hok
    have hstep := F.step e s
    rw [h, hok] at hstep
    exact ⟨h, hstep.stored⟩
  · cases h

theorem InOrder.step (h : F.InOrder tr (F.codes s.db)) {e : Request × Draws}
    (hstamp : F.StampedInOrder s e) :
    F.InOrder (tr ++ [(Api p).serve e s]) (F.codes ((Api p).step e s).2.db) := by
  constructor
  · intro w hw row hrow
    rcases List.mem_append.mp hw with hw | hw
    · obtain ⟨c, hc, hsame⟩ := h.stored w hw row hrow
      obtain ⟨c', hc', hsame', -⟩ := (F.step e s).kept hc
      exact ⟨c', hc', hsame.trans hsame'⟩
    · rw [List.mem_singleton.mp hw] at hrow
      exact ⟨row, (issued_stored hrow).2, .refl row⟩
  · refine List.pairwise_append.mpr ⟨h.ordered, List.pairwise_singleton _ _, ?_⟩
    intro w hw w' hw' r r' hr hr' hkey
    rw [List.mem_singleton.mp hw'] at hr'
    obtain ⟨c, hc, hsame⟩ := h.stored w hw r hr
    rw [hsame.createdAt]
    exact hstamp r' (issued_stored hr').1 c hc (hsame.key.symm.trans hkey)

/-- A successful verification has met the newest code of its key, or revived an older one. -/
theorem InOrder.newest (h : F.InOrder tr (F.codes s.db)) {e : Request × Draws}
    (hrevives : ¬ F.Revives s e) {row : γ} (haccepts : F.Accepts ((Api p).serve e s))
    (htarget : F.target ((Api p).serve e s) = some row) : ¬ F.Superseded tr row := by
  obtain ⟨hok, hsome⟩ := haccepts
  obtain ⟨sub, hsub⟩ := Option.isSome_iff_exists.mp hsome
  change ((Api p).step e s).1.isOk = true at hok
  change F.submitted e s.db = some sub at hsub
  rw [target_serve hsub] at htarget
  have hstep := F.step e s
  rw [hok, hsub] at hstep
  obtain ⟨c, hverdict, -⟩ := hstep.success
  obtain ⟨hc, hexpires, hattempts, hright⟩ := Submission.verdict_some hverdict
  rw [htarget] at hc
  cases hc
  obtain ⟨hmem, hkey, hfree, hnewest⟩ := pending_some htarget
  rintro ⟨w, w', r, r', hsub', hr, hpk, hr', hkey'⟩
  -- both codes are still stored, and the later one is stamped later
  obtain ⟨c, hc, hsame⟩ := h.stored w (hsub'.subset (by simp)) r hr
  obtain ⟨c', hc', hsame'⟩ := h.stored w' (hsub'.subset (by simp)) r' hr'
  cases (F.codes s.db).eq_of_pk hc hmem (hsame.pk.symm.trans hpk)
  have hlater := List.pairwise_iff_forall_sublist.mp h.ordered hsub' r r' hr hr'
    (hsame.key.trans hkey'.symm)
  rw [hsame.createdAt, hsame'.createdAt] at hlater
  have hkeyc' : key c' = sub.key := hsame'.key.symm.trans (hkey'.trans hkey)
  refine hrevives ⟨sub, hsub, _, hmem, c', hc', ⟨hkey, hfree, fun d hd hkeyd => ?_⟩,
    ⟨hright _ rfl, hexpires, hattempts⟩, hkeyc', fun hfree' => ?_, hlater⟩
  · exact hnewest d hd (hkeyd.trans hkey)
  · exact absurd hlater (not_lt.mpr (hnewest c' hc' hkeyc' hfree'))

theorem newestOnly_run (F : Flow p γ κ) (es : List (Request × Draws)) {s : Server}
    (hC : (Api p).Along (fun s e => F.StampedInOrder s e ∧ ¬ F.Revives s e) es s) :
    F.NewestOnly ((Api p).trace es s) := by
  intro i v row hv haccepts htarget
  obtain ⟨e, he, rfl⟩ := Machine.exists_serve _ hv
  obtain ⟨hbefore, -, hrevives⟩ := Machine.along_take _ hC he
  have hinv : F.InOrder ((Api p).trace (es.take i) s)
      (F.codes ((Api p).exec (es.take i) s).db) := by
    refine (Api p).trace_inv (I := fun tr s => F.InOrder tr (F.codes s.db))
      (P := fun es => (Api p).Along (fun s e => F.StampedInOrder s e ∧ ¬ F.Revives s e) es s) s
      ⟨(fun w hw => by cases hw), List.Pairwise.nil⟩ ?_ ?_ _ hbefore
    · exact fun es e h => ((Api p).along_snoc _ es e s).mp h |>.1
    · exact fun es e h hinv => hinv.step (((Api p).along_snoc _ es e s).mp h).2.1
  rw [Machine.trace_take]
  exact hinv.newest hrevives haccepts htarget

end Flow

/-- In every run in which the codes of a key are stamped in the order they are issued and no
    step revives an older code: no code, of an OTP as of an email, is accepted once a newer
    one has been issued for its key. -/
theorem newest_code_only (p : Platform) (es : List (Request × Draws)) (s : Server)
    (hC : (Api p).Along (fun s e =>
      ((otpFlow p).StampedInOrder s e ∧ ¬ (otpFlow p).Revives s e) ∧
      ((emailFlow p).StampedInOrder s e ∧ ¬ (emailFlow p).Revives s e)) es s) :
    (otpFlow p).NewestOnly ((Api p).trace es s) ∧
      (emailFlow p).NewestOnly ((Api p).trace es s) := by
  rw [Machine.along_iff] at hC
  exact ⟨(otpFlow p).newestOnly_run es ((Machine.along_iff _ _ es s).mpr fun v hv => (hC v hv).1),
    (emailFlow p).newestOnly_run es ((Machine.along_iff _ _ es s).mpr fun v hv => (hC v hv).2)⟩

/-- Two OTPs for one phone; the newer one is used. -/
def supersedingRun : List (Request × Draws) :=
  [(.requestOtp "+15551234567", { drawsAt 0 30 with random := 1 }),
    (.requestOtp "+15551234567", { drawsAt 1 31 with random := 2 }),
    (.verifyOtp "+15551234567" "000002", drawsAt 2 32)]

theorem supersedingRun_newest :
    ((Api smallPlatform).outputs supersedingRun (.start smallDb)).map Except.isOk =
        [true, true, true] ∧
      (otpFlow smallPlatform).NewestOnly
        ((Api smallPlatform).trace supersedingRun (.start smallDb)) :=
  ⟨by decide, (newest_code_only smallPlatform supersedingRun (.start smallDb) (by decide)).1⟩

/-- Afterwards the older one is accepted, too. -/
theorem superseded_code_accepted :
    ¬ ∀ (p : Platform) (es : List (Request × Draws)) (s : Server),
      (otpFlow p).NewestOnly ((Api p).trace es s) ∧
        (emailFlow p).NewestOnly ((Api p).trace es s) := by
  intro hall
  refine (hall smallPlatform
    (supersedingRun ++ [(.verifyOtp "+15551234567" "000001", drawsAt 3 33)]) (.start smallDb)).1
    3 _ ⟨30, "+15551234567", "000001", 0, minutes 5, none, 0⟩ rfl
    ⟨by decide, by decide⟩ (by decide) ?_
  exact ⟨_, _, ⟨30, "+15551234567", "000001", 0, minutes 5, none, 0⟩,
    ⟨31, "+15551234567", "000002", 0, minutes 5 + 1, none, 1⟩,
    .cons_cons _ (.cons_cons _ (List.nil_sublist _)), by decide, rfl, by decide, rfl⟩

end LinkedOut
