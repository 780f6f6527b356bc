import Mathlib.Data.List.Basic
import Wcdb.Core.InnerHandle

/-!
# A reported commit is a commit, unless SQLite has discarded writes on its own

`commitTransaction` takes a transaction that is no longer there for one that has been committed:
outside a transaction it succeeds without a statement, at every level. After SQLite has rolled the
transaction back on its own (an interrupted statement, a full disk, an I/O error) and the client's
callback went on, `runTransaction` therefore returns `true` with all the writes of the callback
gone. A second way to a false report is a rollback that fails: the level counter stays where it
was, and the client's next outermost commit only releases a savepoint.

These are the only ways. `Books` is the invariant of every session without such a lapse, over all
calls in any order: the writes on record at the levels of the open transaction are in it, those
recorded outside it are committed or were discarded by SQLite. It follows that whenever
`commitOrRollbackTransaction`, `runTransaction` or `runPausableTransactionWithOneLoop` returns
`true`, every write on record at the caller's level is where it should be (`Session.Kept`).
-/

namespace Wcdb

open Savepoint (Levels)

namespace Handle

/-! ### The invariant of the records -/

/-- The contents of a transaction with its open levels: the writes of each level are in the
content, and the content at its begin is part of it and has the writes of the levels below. -/
def Covers (base : List ℕ) : List ℕ → List (List ℕ) → List (List ℕ) → Prop
  | content, [], [] => base ⊆ content
  | content, level :: levels, s :: saved =>
      level ⊆ content ∧ s ⊆ content ∧ Covers base s levels saved
  | _, _, _ => False

/-- Committed, or discarded by SQLite on its own. -/
def Accounted (committed : List ℕ) (vanished : List (List ℕ)) (level : List ℕ) : Prop :=
  ∀ w ∈ level, w ∈ committed ∨ ∃ v ∈ vanished, w ∈ v

/-- The levels `live` are those of the open transaction. While errors are allowed each inner one
has its savepoint. -/
structure Inside (level : ℕ) (error : TransactionError) (committed : List ℕ)
    (t : Savepoint.Transaction String (List ℕ)) (live : List (List ℕ)) : Prop where
  level_eq : level = live.length
  explicit : t.explicit = true
  committed_subset : committed ⊆ t.content
  live_subset : ∀ l ∈ live, l ⊆ t.content
  savepoints : error = .allowed → ∃ saved, Levels getSavepointName saved t.savepoints ∧
    Covers committed t.content live saved

/-- **The invariant**: `books` are the writes on record, innermost level first. -/
def Books (h : Handle (List ℕ)) (books : List (List ℕ)) : Prop :=
  (h.database.transaction = none ∧
    ∀ l ∈ books, Accounted h.database.committed h.vanished l) ∨
  ∃ t live past, h.database.transaction = some t ∧ books = live ++ past ∧ live ≠ [] ∧ past ≠ [] ∧
    (∀ l ∈ past, Accounted h.database.committed h.vanished l) ∧
    Inside h.transactionLevel h.transactionError h.database.committed t live

variable {h : Handle (List ℕ)} {books bs : List (List ℕ)} {b b' : List ℕ}

theorem Accounted.mono {committed committed' : List ℕ} {vanished vanished' : List (List ℕ)}
    {l : List ℕ} (hl : Accounted committed vanished l) (hc : committed ⊆ committed')
    (hv : vanished ⊆ vanished') : Accounted committed' vanished' l := by
  intro w hw
  rcases hl w hw with hin | ⟨v, hv', hw'⟩
  · exact .inl (hc hin)
  · exact .inr ⟨v, hv hv', hw'⟩

theorem Covers.length_eq {base content : List ℕ} {live saved : List (List ℕ)}
    (hc : Covers base content live saved) : saved.length = live.length := by
  induction live generalizing content saved with
  | nil =>
    cases saved with
    | nil => rfl
    | cons s saved => exact hc.elim
  | cons l live ih =>
    cases saved with
    | nil => exact hc.elim
    | cons s saved => simpa using ih hc.2.2

/-- While errors are allowed, the level counter tells the name of the innermost savepoint. -/
theorem Inside.savepoints_cons {level : ℕ} {error : TransactionError} {committed : List ℕ}
    {t : Savepoint.Transaction String (List ℕ)} {live : List (List ℕ)}
    (hin : Inside level error committed t live) (hallowed : error = .allowed) :
    ∃ s saved, Levels getSavepointName (s :: saved) t.savepoints ∧
      Covers committed t.content live (s :: saved) ∧ level = saved.length + 1 := by
  obtain ⟨saved, hlevels, hcovers⟩ := hin.savepoints hallowed
  cases saved with
  | nil => exact hlevels.elim
  | cons s saved =>
    refine ⟨s, saved, hlevels, hcovers, ?_⟩
    rw [hin.level_eq, ← hcovers.length_eq, List.length_cons]

theorem Books.outside (hb : Books h books) (hin : h.isInTransaction = false) :
    ∀ l ∈ books, Accounted h.database.committed h.vanished l := by
  rcases hb with ⟨-, hacc⟩ | ⟨t, live, past, htr, -⟩
  · exact hacc
  · simp [isInTransaction, htr] at hin

/-- SQLite ends the transaction on its own: its content was the last to have its writes. -/
theorem Books.rollBackOnItsOwn (hb : Books h books) : Books h.rollBackOnItsOwn books := by
  rcases hb with ⟨htr, hacc⟩ | ⟨t, live, past, htr, rfl, -, -, hpast, hin⟩
  · left
    simp only [Handle.rollBackOnItsOwn, htr]
    exact ⟨trivial, hacc⟩
  · left
    simp only [Handle.rollBackOnItsOwn, htr]
    refine ⟨trivial, fun l hl => ?_⟩
    rcases List.mem_append.mp hl with hl | hl
    · exact fun w hw => .inr ⟨t.content, List.mem_cons_self, hin.live_subset l hl hw⟩
    · exact (hpast l hl).mono (List.Subset.refl _) (List.subset_cons_self _ _)

theorem Books.notifyError (hb : Books h books) : Books h.notifyError books := by
  rcases hb with hnone | ⟨t, live, past, htr, hbooks, hlive, hpast, hacc, hin⟩
  · exact .inl hnone
  · refine .inr ⟨t, live, past, htr, hbooks, hlive, hpast, hacc, hin.level_eq, hin.explicit,
      hin.committed_subset, hin.live_subset, fun hallowed => hin.savepoints ?_⟩
    by_contra hne
    simp [Handle.notifyError, hne] at hallowed

theorem Books.markErrorNotAllowed (hb : Books h books) :
    Books h.markErrorNotAllowedWithinTransaction books := by
  rw [markErrorNotAllowedWithinTransaction]
  split
  · rcases hb with hnone | ⟨t, live, past, htr, hbooks, hlive, hpast, hacc, hin⟩
    · exact .inl hnone
    · exact .inr ⟨t, live, past, htr, hbooks, hlive, hpast, hacc, hin.level_eq, hin.explicit,
        hin.committed_subset, hin.live_subset, fun hallowed => by cases hallowed⟩
  · exact hb

theorem Books.withOutcomes (hb : Books h books) (outcomes : List StatementOutcome) :
    Books { h with outcomes } books :=
  hb

/-! ### Statements -/

/-- What a statement can do. -/
theorem executeStatement_cases {σ : Type} (h : Handle σ) (c : Savepoint.Command String σ) :
    (∃ d, h.database.exec c = .ok d ∧
      h.executeStatement c = (.succeed, { h with database := d, outcomes := h.outcomes.tail })) ∨
    (∃ r, h.database.exec c = .error r ∧
      h.executeStatement c = (.refused r, { h with outcomes := h.outcomes.tail }.notifyError)) ∨
    (h.outcomes.headD .done = .failed ∧
      h.executeStatement c = (.error, { h with outcomes := h.outcomes.tail }.notifyError)) ∨
    (h.outcomes.headD .done = .rolledBack ∧ h.executeStatement c =
      (.error, { h with outcomes := h.outcomes.tail }.rollBackOnItsOwn.notifyError)) := by
  cases ho : h.outcomes.headD .done with
  | failed => exact .inr (.inr (.inl ⟨rfl, by simp only [executeStatement, ho]⟩))
  | rolledBack => exact .inr (.inr (.inr ⟨rfl, by simp only [executeStatement, ho]⟩))
  | done =>
    cases hd : h.database.exec c with
    | ok d => exact .inl ⟨d, rfl, by simp only [executeStatement, ho, hd]⟩
    | error r => exact .inr (.inl ⟨r, rfl, by simp only [executeStatement, ho, hd]⟩)

/-- A statement that does not succeed leaves the records in order. -/
theorem executeStatement_split (h : Handle (List ℕ)) (c : Savepoint.Command String (List ℕ)) :
    (∃ d, h.database.exec c = .ok d ∧
      h.executeStatement c = (.succeed, { h with database := d, outcomes := h.outcomes.tail })) ∨
    ∃ r h', h.executeStatement c = (r, h') ∧ r ≠ .succeed ∧
      ∀ books, Books h books → Books h' books := by
  rcases h.executeStatement_cases c with hok | ⟨r, -, heq⟩ | ⟨-, heq⟩ | ⟨-, heq⟩
  · exact .inl hok
  · exact .inr ⟨_, _, heq, by simp, fun books hb => (hb.withOutcomes _).notifyError⟩
  · exact .inr ⟨_, _, heq, by simp, fun books hb => (hb.withOutcomes _).notifyError⟩
  · exact .inr ⟨_, _, heq, by simp,
      fun books hb => (hb.withOutcomes _).rollBackOnItsOwn.notifyError⟩

/-! ### Opening a level, writing -/

theorem Books.beginTransaction (hb : Books h books) (hne : books ≠ []) :
    Books h.beginTransaction.2 (if h.beginTransaction.1 then [] :: books else books) := by
  rcases hb with ⟨htr, hacc⟩ | ⟨t, live, past, htr, rfl, hlive, hpast, hacc, hin⟩
  · rw [beginTransaction_outside (by simp [isInTransaction, htr])]
    rcases executeStatement_split { h with transactionLevel := 0 } .begin with
      ⟨d, hd, heq⟩ | ⟨r, h', heq, hr, hkeep⟩
    · obtain rfl : { h.database with
          transaction := some ⟨h.database.committed, [], true⟩ } = d := by
        simpa [Savepoint.Database.exec, htr] using hd
      rw [heq]
      refine .inr ⟨_, [[]], books, rfl, rfl, by simp, hne, hacc, rfl, rfl,
        List.Subset.refl _, by simp, fun _ => ⟨[h.database.committed],
          Savepoint.levels_nil _, by simp, List.Subset.refl _, List.Subset.refl _⟩⟩
    · have := hkeep books (.inl ⟨htr, hacc⟩)
      rw [heq]
      cases r with
      | succeed => exact absurd rfl hr
      | refused | error => simpa using this
  · have hlevel : 0 < h.transactionLevel := by
      rw [hin.level_eq]
      exact List.length_pos_iff.mpr hlive
    rw [beginTransaction_inside (by simp [isInTransaction, htr]) hlevel]
    have hb : Books h (live ++ past) := .inr ⟨t, live, past, htr, rfl, hlive, hpast, hacc, hin⟩
    by_cases hallowed : h.transactionError = .allowed
    · rw [executeIf, if_pos (by simpa using hallowed)]
      rcases h.executeStatement_split (.savepoint (getSavepointName (h.transactionLevel + 1))) with
        ⟨d, hd, heq⟩ | ⟨r, h', heq, hr, hkeep⟩
      · obtain rfl : { h.database with
            transaction := some { t with
              savepoints := (getSavepointName (h.transactionLevel + 1), t.content) ::
                t.savepoints } } = d := by
          simpa [Savepoint.Database.exec, htr] using hd
        rw [heq]
        obtain ⟨s, saved, hlevels, hcovers, hlevel'⟩ := hin.savepoints_cons hallowed
        refine .inr ⟨_, [] :: live, past, rfl, rfl, by simp, hpast, hacc, ?_, hin.explicit,
          hin.committed_subset, ?_, fun _ => ⟨t.content :: s :: saved, ?_, by simp,
            List.Subset.refl _, hcovers⟩⟩
        · simp [hin.level_eq]
        · simpa using hin.live_subset
        · simpa [hlevel'] using hlevels.push t.content
      · have := hkeep _ hb
        rw [heq]
        cases r with
        | succeed => exact absurd rfl hr
        | refused | error => simpa using this
    · rw [executeIf, if_neg (by simpa using hallowed)]
      refine .inr ⟨t, [] :: live, past, htr, rfl, by simp, hpast, hacc, ?_, hin.explicit,
        hin.committed_subset, ?_, fun h => absurd h hallowed⟩
      · simp [hin.level_eq]
      · simpa using hin.live_subset

/-- A write that succeeds is on record at the innermost level. -/
theorem Books.write (hb : Books h (b :: bs)) (n : ℕ) :
    Books (h.executeStatement (.write (· ++ [n]))).2
      (if (h.executeStatement (.write (· ++ [n]))).1 = .succeed then (b ++ [n]) :: bs
        else b :: bs) := by
  rcases h.executeStatement_split (.write (· ++ [n])) with ⟨d, hd, heq⟩ | ⟨r, h', heq, hr, hkeep⟩
  · rw [heq, if_pos rfl]
    rcases hb with ⟨htr, hacc⟩ | ⟨t, live, past, htr, hbooks, hlive, hpast, hacc, hin⟩
    · obtain rfl : { h.database with committed := h.database.committed ++ [n] } = d := by
        simpa [Savepoint.Database.exec, htr] using hd
      have hsub : h.database.committed ⊆ h.database.committed ++ [n] :=
        List.subset_append_left _ _
      refine .inl ⟨htr, ?_⟩
      rintro l (_ | ⟨_, hl⟩)
      · intro w hw
        rcases List.mem_append.mp hw with hw | hw
        · exact (hacc b List.mem_cons_self).mono hsub (List.Subset.refl _) w hw
        · exact .inl (List.mem_append_right _ hw)
      · exact (hacc l (List.mem_cons_of_mem _ hl)).mono hsub (List.Subset.refl _)
    · obtain rfl : { h.database with
          transaction := some { t with content := t.content ++ [n] } } = d := by
        simpa [Savepoint.Database.exec, htr] using hd
      obtain ⟨l, live, rfl⟩ := List.exists_cons_of_ne_nil hlive
      obtain ⟨rfl, rfl⟩ : b = l ∧ bs = live ++ past := by simpa using hbooks
      have hsub : t.content ⊆ t.content ++ [n] := List.subset_append_left _ _
      have hb' : b ++ [n] ⊆ t.content ++ [n] :=
        List.append_subset.mpr ⟨List.Subset.trans (hin.live_subset b List.mem_cons_self) hsub,
          List.subset_append_right _ _⟩
      refine .inr ⟨_, (b ++ [n]) :: live, past, rfl, rfl, by simp, hpast, hacc, hin.level_eq,
        hin.explicit, List.Subset.trans hin.committed_subset hsub, ?_, fun hallowed => ?_⟩
      · rintro l (_ | ⟨_, hl⟩)
        · exact hb'
        · exact List.Subset.trans (hin.live_subset l (List.mem_cons_of_mem _ hl)) hsub
      · obtain ⟨s, saved, hlevels, hcovers, -⟩ := hin.savepoints_cons hallowed
        exact ⟨s :: saved, hlevels, hb', List.Subset.trans hcovers.2.1 hsub, hcovers.2.2⟩
  · have := hkeep _ hb
    rw [heq, if_neg hr]
    exact this

/-! ### Ending a level -/

/-- Ending a level outside a transaction takes no statement. -/
theorem commitTransaction_outside (hout : h.isInTransaction = false) :
    ∃ level error, h.commitTransaction =
      (true, { h with transactionLevel := level, transactionError := error }) := by
  by_cases hlevel : 1 < h.transactionLevel
  · exact ⟨h.transactionLevel - 1, h.transactionError, by
      simp [commitTransaction_inner hlevel, executeIf, hout]⟩
  · exact ⟨0, .allowed, by
      simp [commitTransaction_outer (Nat.not_lt.mp hlevel), executeIf, hout]⟩

theorem rollbackTransaction_outside (hout : h.isInTransaction = false) :
    ∃ level error, h.rollbackTransaction =
      { h with transactionLevel := level, transactionError := error } := by
  rcases Bool.eq_false_or_eq_true h.enableLiteMode with hlite | hlite
  · obtain ⟨level, error, heq⟩ := commitTransaction_outside (h := h.notifyError) hout
    refine ⟨level, error, ?_⟩
    rw [rollbackTransaction_lite hlite, heq]
    rfl
  · by_cases hlevel : 1 < h.transactionLevel
    · exact ⟨h.transactionLevel - 1, h.transactionError, by
        simp [rollbackTransaction_inner hlite hlevel, executeIf, hout]⟩
    · exact ⟨0, .allowed, by
        simp [rollbackTransaction_outer hlite (Nat.not_lt.mp hlevel), executeIf, hout]⟩

theorem Books.of_outside (hb : Books h books) (hout : h.isInTransaction = false)
    (hsub : bs ⊆ books) : Books h bs :=
  .inl ⟨by simpa [isInTransaction] using hout, fun l hl => hb.outside hout l (hsub hl)⟩

section Inside

variable {level : ℕ} {error : TransactionError} {committed : List ℕ}
variable {t : Savepoint.Transaction String (List ℕ)} {l l' s s' : List ℕ}
variable {live saved : List (List ℕ)} {rest : List (String × List ℕ)}

theorem Inside.merged_subset (hin : Inside level error committed t (l :: l' :: live)) :
    ∀ x ∈ (l' ++ l) :: live, x ⊆ t.content := by
  intro x hx
  rcases List.mem_cons.mp hx with rfl | hx
  · exact List.append_subset.mpr ⟨hin.live_subset l' (by simp), hin.live_subset l (by simp)⟩
  · exact hin.live_subset x (by simp [hx])

/-- The innermost level ends without a savepoint of its own. -/
theorem Inside.descend (hin : Inside level error committed t (l :: l' :: live))
    (hallowed : error ≠ .allowed) :
    Inside (level - 1) error committed t ((l' ++ l) :: live) where
  level_eq := by simp [hin.level_eq]
  explicit := hin.explicit
  committed_subset := hin.committed_subset
  live_subset := hin.merged_subset
  savepoints := fun h => absurd h hallowed

/-- The innermost level ends and its savepoint is released. -/
theorem Inside.release (hin : Inside level error committed t (l :: l' :: live))
    (hcovers : Covers committed t.content (l :: l' :: live) (s :: s' :: saved))
    (hrest : Levels getSavepointName (s' :: saved) rest) :
    Inside (level - 1) error committed { t with savepoints := rest } ((l' ++ l) :: live) where
  level_eq := by simp [hin.level_eq]
  explicit := hin.explicit
  committed_subset := hin.committed_subset
  live_subset := hin.merged_subset
  savepoints := fun _ => by
    obtain ⟨hl, hs, hl', hs', hbelow⟩ := hcovers
    exact ⟨s' :: saved, hrest, List.append_subset.mpr ⟨List.Subset.trans hl' hs, hl⟩,
      List.Subset.trans hs' hs, hbelow⟩

theorem Covers.base_subset {content : List ℕ} (hc : Covers committed content live saved) :
    committed ⊆ content := by
  induction live generalizing content saved with
  | nil =>
    cases saved with
    | nil => exact hc
    | cons s saved => exact hc.elim
  | cons l live ih =>
    cases saved with
    | nil => exact hc.elim
    | cons s saved => exact List.Subset.trans (ih hc.2.2) hc.2.1

theorem Covers.live_subset {content : List ℕ} (hc : Covers committed content live saved) :
    ∀ l ∈ live, l ⊆ content := by
  induction live generalizing content saved with
  | nil => simp
  | cons l live ih =>
    cases saved with
    | nil => exact hc.elim
    | cons s saved =>
      intro x hx
      rcases List.mem_cons.mp hx with rfl | hx
      · exact hc.1
      · exact List.Subset.trans (ih hc.2.2 x hx) hc.2.1

/-- The innermost level ends and its savepoint brings back the content at its begin. -/
theorem Inside.rollbackTo (hin : Inside level error committed t (l :: l' :: live))
    (hcovers : Covers committed t.content (l :: l' :: live) (s :: s' :: saved))
    (hrest : Levels getSavepointName (s' :: saved) rest) :
    Inside (level - 1) error committed { t with content := s, savepoints := rest }
      (l' :: live) where
  level_eq := by simp [hin.level_eq]
  explicit := hin.explicit
  committed_subset := Covers.base_subset hcovers.2.2
  live_subset := Covers.live_subset hcovers.2.2
  savepoints := fun _ => ⟨s' :: saved, hrest, hcovers.2.2⟩

end Inside

/-- The statement that ends a level either succeeds or takes the transaction with it, unless it
fails with the transaction left open. -/
theorem executeStatement_ending {c : Savepoint.Command String (List ℕ)}
    {d : Savepoint.Database String (List ℕ)} (hd : h.database.exec c = .ok d) :
    h.executeStatement c = (.succeed, { h with database := d, outcomes := h.outcomes.tail }) ∨
    ∃ h', h.executeStatement c = (.error, h') ∧ h'.outcomes = h.outcomes.tail ∧
      (∀ books, Books h books → Books h' books) ∧
      (h'.isInTransaction = true → h.outcomes.headD .done = .failed) := by
  rcases h.executeStatement_cases c with ⟨d', hd', heq⟩ | ⟨r, hr, -⟩ | ⟨ho, heq⟩ | ⟨ho, heq⟩
  · rw [hd] at hd'
    cases hd'
    exact .inl heq
  · rw [hd] at hr
    cases hr
  · exact .inr ⟨_, heq, rfl, fun books hb => (hb.withOutcomes _).notifyError, fun _ => ho⟩
  · refine .inr ⟨_, heq, ?_, fun books hb => (hb.withOutcomes _).rollBackOnItsOwn.notifyError, ?_⟩
    · cases htr : h.database.transaction <;> simp [rollBackOnItsOwn, notifyError, htr]
    · intro hin
      cases htr : h.database.transaction <;>
        simp [isInTransaction, rollBackOnItsOwn, notifyError, htr] at hin

/-- **The end of a level by `commitTransaction`**: either it succeeds and the writes of the level
belong to the level around it, or its statement failed, with the transaction gone or left open. -/
theorem Books.commitTransaction (hb : Books h (b :: b' :: bs)) :
    (∃ h', h.commitTransaction = (true, h') ∧ h'.vanished = h.vanished ∧
      h.database.committed ⊆ h'.database.committed ∧ Books h' ((b' ++ b) :: bs)) ∨
    ∃ h', h.commitTransaction = (false, h') ∧ h'.outcomes = h.outcomes.tail ∧
      Books h' (b :: b' :: bs) ∧ (h'.isInTransaction = true → h.rollbackStaysOpen = true) := by
  have hbooks := hb
  rcases hb with ⟨htr, hacc⟩ | ⟨t, live, past, htr, heq, hlive, hpast, hacc, hin⟩
  · obtain ⟨level, error, heq⟩ :=
      commitTransaction_outside (h := h) (by simp [isInTransaction, htr])
    refine .inl ⟨_, heq, rfl, List.Subset.refl _, .inl ⟨htr, fun l hl => ?_⟩⟩
    rcases List.mem_cons.mp hl with rfl | hl
    · intro w hw
      rcases List.mem_append.mp hw with hw | hw
      · exact hacc b' (by simp) w hw
      · exact hacc b (by simp) w hw
    · exact hacc l (by simp [hl])
  · have hisIn : h.isInTransaction = true := by simp [isInTransaction, htr]
    obtain ⟨l, live, rfl⟩ := List.exists_cons_of_ne_nil hlive
    obtain ⟨rfl, hsplit⟩ : b = l ∧ b' :: bs = live ++ past := by simpa using heq
    cases live with
    | nil =>
      -- the outermost level
      have hlevel : h.transactionLevel ≤ 1 := by simp [hin.level_eq]
      have hexec : h.database.exec .commit = .ok ⟨t.content, none⟩ := by
        simp [Savepoint.Database.exec, htr]
      rw [commitTransaction_outer hlevel, hisIn, executeIf, if_pos rfl]
      rcases executeStatement_ending hexec with hs | ⟨h', hs, hout, hkeep, hopen⟩
      · rw [hs]
        refine .inl ⟨_, rfl, rfl, hin.committed_subset, .inl ⟨rfl, fun x hx => ?_⟩⟩
        have hpast' : ∀ y ∈ b' :: bs, Accounted t.content h.vanished y := fun y hy =>
          (hacc y (by rwa [hsplit] at hy)).mono hin.committed_subset (List.Subset.refl _)
        rcases List.mem_cons.mp hx with rfl | hx
        · intro w hw
          rcases List.mem_append.mp hw with hw | hw
          · exact hpast' b' (by simp) w hw
          · exact .inl (hin.live_subset b (by simp) hw)
        · exact hpast' x (by simp [hx])
      · rw [hs]
        refine .inr ⟨h', rfl, hout, hkeep _ hbooks, fun hi => ?_⟩
        simp only [rollbackStaysOpen, endsByStatement, hisIn, hopen hi, hlevel]
        simp
    | cons l' live =>
      obtain ⟨rfl, rfl⟩ : b' = l' ∧ bs = live ++ past := by simpa using hsplit
      have hlevel : 1 < h.transactionLevel := by simp [hin.level_eq]
      rw [commitTransaction_inner hlevel]
      by_cases hallowed : h.transactionError = .allowed
      · obtain ⟨s, saved, hlevels, hcovers, hlevel'⟩ := hin.savepoints_cons hallowed
        obtain ⟨s', saved, rfl⟩ : ∃ s' saved', saved = s' :: saved' := by
          cases saved with
          | nil => simp [hlevel'] at hlevel
          | cons s' saved => exact ⟨s', saved, rfl⟩
        obtain ⟨rest, hexec, hrest⟩ :=
          h.database.exec_release getSavepointName_injective htr hin.explicit hlevels
        rw [show saved.length + 2 = h.transactionLevel by simp [hlevel']] at hexec
        rw [hisIn, executeIf, if_pos (by simpa using hallowed)]
        rcases executeStatement_ending hexec with hs | ⟨h', hs, hout, hkeep, hopen⟩
        · rw [hs]
          exact .inl ⟨_, rfl, rfl, List.Subset.refl _, .inr ⟨_, _, past, rfl, rfl, by simp, hpast,
            hacc, hin.release hcovers hrest⟩⟩
        · rw [hs]
          refine .inr ⟨h', rfl, hout, hkeep _ hbooks, fun hi => ?_⟩
          simp only [rollbackStaysOpen, endsByStatement, hisIn, hopen hi, hallowed]
          simp
      · rw [executeIf, if_neg (by simp [hallowed])]
        exact .inl ⟨_, rfl, rfl, List.Subset.refl _,
          .inr ⟨t, _, past, htr, rfl, by simp, hpast, hacc,
          hin.descend hallowed⟩⟩

/-- Writes may be taken off the record. -/
theorem Books.forget (hb : Books h ((b' ++ b) :: bs)) : Books h (b' :: bs) := by
  have hsub : b' ⊆ b' ++ b := List.subset_append_left _ _
  rcases hb with ⟨htr, hacc⟩ | ⟨t, live, past, htr, heq, hlive, hpast, hacc, hin⟩
  · refine .inl ⟨htr, fun l hl => ?_⟩
    rcases List.mem_cons.mp hl with rfl | hl
    · exact fun w hw => hacc _ List.mem_cons_self w (hsub hw)
    · exact hacc l (List.mem_cons_of_mem _ hl)
  · obtain ⟨l, live, rfl⟩ := List.exists_cons_of_ne_nil hlive
    obtain ⟨rfl, rfl⟩ : b' ++ b = l ∧ bs = live ++ past := by simpa using heq
    refine .inr ⟨t, b' :: live, past, htr, rfl, by simp, hpast, hacc, hin.level_eq, hin.explicit,
      hin.committed_subset, fun x hx => ?_, fun hallowed => ?_⟩
    · rcases List.mem_cons.mp hx with rfl | hx
      · exact List.Subset.trans hsub (hin.live_subset _ List.mem_cons_self)
      · exact hin.live_subset x (List.mem_cons_of_mem _ hx)
    · obtain ⟨s, saved, hlevels, hcovers, -⟩ := hin.savepoints_cons hallowed
      exact ⟨s :: saved, hlevels, List.Subset.trans hsub hcovers.1, hcovers.2⟩

theorem rollbackStaysOpen_notifyError : h.notifyError.rollbackStaysOpen = h.rollbackStaysOpen := by
  have herror : (h.notifyError.transactionError = .allowed) = (h.transactionError = .allowed) := by
    simp [notifyError]
  simp only [rollbackStaysOpen, endsByStatement, herror]
  rfl

/-- **The end of a level by `rollbackTransaction`**, whose statement does not fail with the
transaction left open: the writes of the level are given up, all others stay on record. -/
theorem Books.rollbackTransaction (hb : Books h (b :: b' :: bs))
    (hopen : h.rollbackStaysOpen = false) : Books h.rollbackTransaction (b' :: bs) := by
  have hbooks := hb
  rcases hb with ⟨htr, hacc⟩ | ⟨t, live, past, htr, heq, hlive, hpast, hacc, hin⟩
  · obtain ⟨level, error, heq⟩ :=
      rollbackTransaction_outside (h := h) (by simp [isInTransaction, htr])
    rw [heq]
    exact .inl ⟨htr, fun l hl => hacc l (List.mem_cons_of_mem _ hl)⟩
  have hisIn : h.isInTransaction = true := by simp [isInTransaction, htr]
  have hfailed (hends : h.endsByStatement = true) : h.outcomes.headD .done ≠ .failed := by
    simpa only [rollbackStaysOpen, hends, Bool.true_and, decide_eq_false_iff_not] using hopen
  rcases Bool.eq_false_or_eq_true h.enableLiteMode with hlite | hlite
  · -- without a rollback journal a rollback is a commit
    rw [rollbackTransaction_lite hlite]
    rcases hbooks.notifyError.commitTransaction with
      ⟨h', heq', -, -, hb'⟩ | ⟨h', heq', -, hb', hstay⟩
    · rw [heq']
      exact hb'.forget
    · rw [heq']
      refine hb'.of_outside ?_ (List.subset_cons_self _ _)
      by_contra hi
      rw [rollbackStaysOpen_notifyError, hopen] at hstay
      exact absurd (hstay (by simpa using hi)) (by simp)
  obtain ⟨l, live, rfl⟩ := List.exists_cons_of_ne_nil hlive
  obtain ⟨rfl, hsplit⟩ : b = l ∧ b' :: bs = live ++ past := by simpa using heq
  cases live with
  | nil =>
    have hlevel : h.transactionLevel ≤ 1 := by simp [hin.level_eq]
    have hends : h.endsByStatement = true := by simp [endsByStatement, hisIn, hlevel]
    have hexec : h.database.exec .rollback = .ok { h.database with transaction := none } := by
      simp [Savepoint.Database.exec, htr]
    rw [rollbackTransaction_outer hlite hlevel, hisIn, executeIf, if_pos rfl]
    rcases executeStatement_ending hexec with hs | ⟨h', hs, -, hkeep, hstay⟩
    · rw [hs]
      exact .inl ⟨rfl, fun x hx => hacc x (by rwa [hsplit] at hx)⟩
    · rw [hs]
      refine (hkeep _ hbooks).of_outside ?_ (List.subset_cons_self _ _)
      by_contra hi
      exact hfailed hends (hstay (by simpa using hi))
  | cons l' live =>
    obtain ⟨rfl, rfl⟩ : b' = l' ∧ bs = live ++ past := by simpa using hsplit
    have hlevel : 1 < h.transactionLevel := by simp [hin.level_eq]
    rw [rollbackTransaction_inner hlite hlevel]
    by_cases hallowed : h.transactionError = .allowed
    · obtain ⟨s, saved, hlevels, hcovers, hlevel'⟩ := hin.savepoints_cons hallowed
      obtain ⟨s', saved, rfl⟩ : ∃ s' saved', saved = s' :: saved' := by
        cases saved with
        | nil => simp [hlevel'] at hlevel
        | cons s' saved => exact ⟨s', saved, rfl⟩
      obtain ⟨rest, hexec, hrest⟩ :=
        h.database.exec_rollbackTo getSavepointName_injective htr hlevels
      rw [show saved.length + 2 = h.transactionLevel by simp [hlevel']] at hexec
      rw [hisIn, executeIf, if_pos (by simpa using hallowed)]
      have hends : h.endsByStatement = true := by simp [endsByStatement, hisIn, hallowed]
      rcases executeStatement_ending hexec with hs | ⟨h', hs, -, hkeep, hstay⟩
      · rw [hs]
        exact .inr ⟨_, _, past, rfl, rfl, by simp, hpast, hacc, hin.rollbackTo hcovers hrest⟩
      · rw [hs]
        refine (hkeep _ hbooks).of_outside ?_ (List.subset_cons_self _ _)
        by_contra hi
        exact hfailed hends (hstay (by simpa using hi))
    · rw [executeIf, if_neg (by simp [hallowed])]
      exact Books.forget (b := b)
        (.inr ⟨t, (b' ++ b) :: live, past, htr, rfl, by simp, hpast, hacc, hin.descend hallowed⟩)

/-- **The end of a level by `commitOrRollbackTransaction`.** -/
theorem Books.commitOrRollbackTransaction (hb : Books h (b :: b' :: bs))
    (hopen : h.commitStaysOpen = false) :
    (∃ h', h.commitOrRollbackTransaction = (true, h') ∧ h.transactionError ≠ .fatal ∧
      h'.vanished = h.vanished ∧ h.database.committed ⊆ h'.database.committed ∧
      Books h' ((b' ++ b) :: bs)) ∨
    ∃ h', h.commitOrRollbackTransaction = (false, h') ∧ Books h' (b' :: bs) := by
  by_cases hfatal : h.transactionError = .fatal
  · right
    rw [Handle.commitOrRollbackTransaction, if_pos hfatal]
    exact ⟨_, rfl, hb.rollbackTransaction (by simpa [commitStaysOpen, hfatal] using hopen)⟩
  · rw [Handle.commitOrRollbackTransaction, if_neg hfatal]
    rcases hb.commitTransaction with ⟨h', heq, hvan, hsub, hb'⟩ | ⟨h', heq, hout, hb', hstay⟩
    · exact .inl ⟨h', by rw [heq], hfatal, hvan, hsub, hb'⟩
    · refine .inr ⟨h'.rollbackTransaction, by rw [heq], hb'.rollbackTransaction ?_⟩
      by_contra hstays
      simp only [rollbackStaysOpen, endsByStatement, Bool.not_eq_false, Bool.and_eq_true,
        decide_eq_true_eq, hout] at hstays
      obtain ⟨⟨hin, -⟩, hfailed⟩ := hstays
      simp only [commitStaysOpen, if_neg hfatal, hstay hin, hfailed] at hopen
      exact absurd hopen (by decide)

/-- Without an open level there is no transaction. -/
theorem Books.not_isInTransaction (hb : Books h [b]) : h.isInTransaction = false := by
  rcases hb with ⟨htr, -⟩ | ⟨t, live, past, htr, heq, hlive, hpast, -⟩
  · simp [isInTransaction, htr]
  · have hlength := congrArg List.length heq
    have hl := List.length_pos_iff.mpr hlive
    have hp := List.length_pos_iff.mpr hpast
    simp only [List.length_append, List.length_singleton] at hlength
    omega

theorem Books.commitOrRollback_outside (hb : Books h [b]) :
    (∃ h', h.commitOrRollbackTransaction = (true, h') ∧ h.transactionError ≠ .fatal ∧
      h'.vanished = h.vanished ∧ h.database.committed ⊆ h'.database.committed ∧ Books h' [b]) ∨
    ∃ h', h.commitOrRollbackTransaction = (false, h') ∧ Books h' [b] := by
  have hout := hb.not_isInTransaction
  have hnone : h.database.transaction = none := by simpa [isInTransaction] using hout
  by_cases hfatal : h.transactionError = .fatal
  · obtain ⟨level, error, heq⟩ := rollbackTransaction_outside hout
    rw [Handle.commitOrRollbackTransaction, if_pos hfatal, heq]
    exact .inr ⟨_, rfl, .inl ⟨hnone, hb.outside hout⟩⟩
  · obtain ⟨level, error, heq⟩ := commitTransaction_outside hout
    rw [Handle.commitOrRollbackTransaction, if_neg hfatal, heq]
    exact .inl ⟨_, rfl, hfatal, rfl, List.Subset.refl _, .inl ⟨hnone, hb.outside hout⟩⟩

end Handle

/-! ### Sessions -/

namespace Session

open Handle (Books)

variable {U : Type} {s s' : Session U}

def books (s : Session U) : List (List ℕ) := s.recorded :: s.enclosing

/-- In a session without lapses the records are in order. -/
def Sound (s : Session U) : Prop := s.lapsed = false → Books s.handle s.books

theorem sound_start (enableLiteMode : Bool) (outcomes : List StatementOutcome) (busy : List Bool)
    (memory : U) : Sound (start enableLiteMode outcomes busy memory) :=
  fun _ => .inl ⟨rfl, by simp [books, start, Handle.Accounted]⟩

/-- What every part of a callback does: it keeps the records in order and ends the levels it
opens; the writes on record at the caller's level stay there. -/
def Keeps {α : Type} (p : Program U α) : Prop :=
  ∀ s a s', Sound s → p s = some (a, s') → Sound s' ∧ s'.enclosing = s.enclosing ∧
    s.recorded <+: s'.recorded ∧ (s'.lapsed = false → s.lapsed = false)

theorem execute_eq (s : Session U) :
    execute s = some (decide
      ((s.handle.executeStatement (.write (· ++ [s.executed]))).1 = .succeed),
      { s with
        handle := (s.handle.executeStatement (.write (· ++ [s.executed]))).2
        executed := s.executed + 1
        recorded :=
          if (s.handle.executeStatement (.write (· ++ [s.executed]))).1 = .succeed then
            s.recorded ++ [s.executed]
          else s.recorded }) := by
  unfold execute
  rcases s.handle.executeStatement (.write (· ++ [s.executed])) with ⟨r, h⟩
  cases r <;> rfl

theorem Plain.keeps {α : Type} {p : Program U α} (hp : Plain p) : Keeps p := by
  intro s a s' hs hrun
  cases hp with
  | execute =>
    rw [execute_eq] at hrun
    cases hrun
    refine ⟨fun hlapsed => ?_, rfl, ?_, id⟩
    · have hwrite := Handle.Books.write (hs hlapsed) s.executed
      dsimp only [books]
      split at hwrite <;> simp_all
    · dsimp only
      split
      · exact List.prefix_append _ _
      · exact List.prefix_refl _
  | isInTransaction | checkMainThreadBusyRetry | compute =>
    cases hrun
    exact ⟨hs, rfl, List.prefix_refl _, id⟩
  | markErrorNotAllowed =>
    cases hrun
    exact ⟨fun hlapsed => (hs hlapsed).markErrorNotAllowed, rfl, List.prefix_refl _, id⟩

theorem begin_spec {a : Bool} (hs : Sound s) (hrun : beginTransaction s = some (a, s')) :
    Sound s' ∧ s'.lapsed = s.lapsed ∧
      s'.books = if a then [] :: s.books else s.books := by
  have hbegin := fun hlapsed => (hs hlapsed).beginTransaction (by simp [books])
  rw [beginTransaction] at hrun
  rcases hcall : s.handle.beginTransaction with ⟨_ | _, h⟩ <;>
  · rw [hcall] at hrun hbegin
    cases hrun
    exact ⟨hbegin, rfl, rfl⟩

theorem rollback_spec (hs : Sound s) (hrun : rollbackTransaction s = some ((), s')) :
    Sound s' ∧ s'.books = s.drop.books ∧ (s'.lapsed = false → s.lapsed = false) := by
  cases hrun
  refine ⟨fun hlapsed => ?_, rfl, fun hlapsed => (Bool.or_eq_false_iff.mp hlapsed).1⟩
  obtain ⟨hbefore, hopen⟩ := Bool.or_eq_false_iff.mp hlapsed
  have hb : Books s.handle (s.recorded :: s.enclosing) := hs hbefore
  cases henc : s.enclosing with
  | nil =>
    rw [henc] at hb
    have hout := hb.not_isInTransaction
    obtain ⟨level, error, heq⟩ := Handle.rollbackTransaction_outside hout
    simp only [books, drop, henc, heq]
    exact .inl ⟨by simpa [Handle.isInTransaction] using hout, hb.outside hout⟩
  | cons level enclosing =>
    rw [henc] at hb
    simp only [books, drop, henc]
    exact hb.rollbackTransaction hopen

theorem books_commit (hb : Books s.handle s.books) (hopen : s.handle.commitStaysOpen = false) :
    (∃ h', s.handle.commitOrRollbackTransaction = (true, h') ∧
      s.handle.transactionError ≠ .fatal ∧ h'.vanished = s.handle.vanished ∧
      s.handle.database.committed ⊆ h'.database.committed ∧ Books h' s.merge.books) ∨
    ∃ h', s.handle.commitOrRollbackTransaction = (false, h') ∧ Books h' s.drop.books := by
  cases henc : s.enclosing with
  | nil =>
    rw [books, henc] at hb
    simpa only [books, merge, drop, henc] using hb.commitOrRollback_outside
  | cons level enclosing =>
    rw [books, henc] at hb
    simpa only [books, merge, drop, henc] using hb.commitOrRollbackTransaction hopen

/-- The writes on record are where they should be, once none of them was discarded. -/
theorem Kept.of_books (hb : Books s.handle s.books)
    (hcommitted : ∀ w ∈ s.recorded, ∀ v ∈ s.handle.vanished, w ∈ v →
      w ∈ s.handle.database.committed) : s.Kept := by
  intro w hw
  rcases hb with ⟨-, hacc⟩ | ⟨t, live, past, htr, heq, hlive, hpast, -, hin⟩
  · rcases hacc s.recorded List.mem_cons_self w hw with hin | ⟨v, hv, hwv⟩
    · exact .inl hin
    · exact .inl (hcommitted w hw v hv hwv)
  · obtain ⟨l, live, rfl⟩ := List.exists_cons_of_ne_nil hlive
    obtain ⟨rfl, henc⟩ : s.recorded = l ∧ s.enclosing = live ++ past := by
      simpa [books] using heq
    refine .inr ⟨by simp [henc, hpast], t, htr, hin.live_subset _ List.mem_cons_self hw⟩

theorem mem_of_mem_merge {w : ℕ} (hw : w ∈ s.merge.recorded) : ∃ level ∈ s.books, w ∈ level := by
  cases henc : s.enclosing with
  | nil => exact ⟨s.recorded, List.mem_cons_self, by simpa [merge, henc] using hw⟩
  | cons level enclosing =>
    rw [merge, henc] at hw
    rcases List.mem_append.mp hw with hw | hw
    · exact ⟨level, by simp [books, henc], hw⟩
    · exact ⟨s.recorded, List.mem_cons_self, hw⟩

/-- Where nothing is missed, a write that SQLite once rolled back on its own is committed. -/
theorem committed_of_not_misses (hmiss : s.misses = false) {level v : List ℕ} {w : ℕ}
    (hlevel : level ∈ s.books) (hw : w ∈ level) (hv : v ∈ s.handle.vanished) (hwv : w ∈ v) :
    w ∈ s.handle.database.committed := by
  by_contra hnot
  have hmissed : s.misses = true := by
    refine List.any_eq_true.mpr ⟨level, hlevel, List.any_eq_true.mpr ⟨w, hw, ?_⟩⟩
    simp only [discarded, Bool.and_eq_true, List.any_eq_true, decide_eq_true_eq]
    exact ⟨⟨v, hv, hwv⟩, hnot⟩
  rw [hmiss] at hmissed
  cases hmissed

/-- **A commit that is reported is one**, in a session without lapses. -/
theorem commit_spec {a : Bool} (hs : Sound s)
    (hrun : commitOrRollbackTransaction s = some (a, s')) :
    Sound s' ∧ s'.books = (if a then s.merge.books else s.drop.books) ∧
      (s'.lapsed = false → s.lapsed = false) ∧ (a = true → s'.lapsed = false → s'.Kept) := by
  rw [commitOrRollbackTransaction] at hrun
  have hlapses (hlapsed : (s.lapsed || s.commitLapses) = false) : s.lapsed = false ∧
      (s.handle.transactionError ≠ .fatal → s.misses = false) ∧
      s.handle.commitStaysOpen = false := by
    simpa [commitLapses, Bool.or_eq_false_iff] using hlapsed
  rcases hcall : s.handle.commitOrRollbackTransaction with ⟨_ | _, h⟩
  · rw [hcall] at hrun
    cases hrun
    refine ⟨fun hlapsed => ?_, rfl, fun hlapsed => (hlapses hlapsed).1, by simp⟩
    obtain ⟨hbefore, -, hopen⟩ := hlapses hlapsed
    rcases books_commit (hs hbefore) hopen with ⟨h', heq, -⟩ | ⟨h', heq, hb⟩
    · rw [hcall] at heq
      cases heq
    · rw [hcall] at heq
      cases heq
      exact hb
  · rw [hcall] at hrun
    cases hrun
    have hafter (hlapsed : (s.lapsed || s.commitLapses) = false) :
      s.misses = false ∧ h.vanished = s.handle.vanished ∧
        s.handle.database.committed ⊆ h.database.committed ∧ Books h s.merge.books := by
      obtain ⟨hbefore, hmiss, hopen⟩ := hlapses hlapsed
      rcases books_commit (hs hbefore) hopen with ⟨h', heq, hfatal, hvan, hsub, hb⟩ | ⟨h', heq, -⟩
      · rw [hcall] at heq
        cases heq
        exact ⟨hmiss hfatal, hvan, hsub, hb⟩
      · rw [hcall] at heq
        cases heq
    refine ⟨fun hlapsed => (hafter hlapsed).2.2.2, rfl, fun hlapsed => (hlapses hlapsed).1,
      fun _ hlapsed => ?_⟩
    obtain ⟨hmiss, hvan, hsub, hb⟩ := hafter hlapsed
    refine Kept.of_books hb fun w hw v hv hwv => ?_
    obtain ⟨level, hlevel, hw'⟩ := mem_of_mem_merge hw
    rw [hvan] at hv
    exact hsub (committed_of_not_misses hmiss hlevel hw' hv hwv)

/-! ### Callbacks -/

theorem bind_eq_some {α β : Type} {p : Program U α} {f : α → Program U β} {b : β} :
    (p >>= f) s = some (b, s') ↔ ∃ a s₁, p s = some (a, s₁) ∧ f a s₁ = some (b, s') := by
  constructor
  · intro hrun
    obtain ⟨⟨a, s₁⟩, hp, hf⟩ := Option.bind_eq_some_iff.mp hrun
    exact ⟨a, s₁, hp, hf⟩
  · rintro ⟨a, s₁, hp, hf⟩
    exact Option.bind_eq_some_iff.mpr ⟨(a, s₁), hp, hf⟩

theorem pure_eq_some {α : Type} {a b : α} :
    (pure a : Program U α) s = some (b, s') ↔ a = b ∧ s = s' := by
  constructor
  · intro hrun
    cases hrun
    exact ⟨rfl, rfl⟩
  · rintro ⟨rfl, rfl⟩
    rfl

theorem runTransaction_cases {transaction : Program U Bool} {a : Bool}
    (hrun : runTransaction transaction s = some (a, s')) :
    (beginTransaction s = some (false, s') ∧ a = false) ∨
    ∃ s₁ s₂, beginTransaction s = some (true, s₁) ∧
      ((transaction s₁ = some (true, s₂) ∧ commitOrRollbackTransaction s₂ = some (a, s')) ∨
        (transaction s₁ = some (false, s₂) ∧ rollbackTransaction s₂ = some ((), s') ∧
          a = false)) := by
  rw [runTransaction, bind_eq_some] at hrun
  obtain ⟨begun, s₁, hbegin, hrun⟩ := hrun
  cases begun with
  | false =>
    obtain ⟨rfl, rfl⟩ := pure_eq_some.mp hrun
    exact .inl ⟨hbegin, rfl⟩
  | true =>
    obtain ⟨succeed, s₂, hcallback, hrun⟩ := bind_eq_some.mp hrun
    refine .inr ⟨s₁, s₂, hbegin, ?_⟩
    cases succeed with
    | false =>
      obtain ⟨⟨⟩, s₃, hrollback, hrun⟩ := bind_eq_some.mp hrun
      obtain ⟨rfl, rfl⟩ := pure_eq_some.mp hrun
      exact .inr ⟨hcallback, hrollback, rfl⟩
    | true => exact .inl ⟨hcallback, hrun⟩

theorem drop_books {l : List ℕ} {ls : List (List ℕ)} (henc : s.enclosing = l :: ls) :
    s.drop.books = l :: ls := by
  simp [books, drop, henc]

theorem merge_books {l : List ℕ} {ls : List (List ℕ)} (henc : s.enclosing = l :: ls) :
    s.merge.books = (l ++ s.recorded) :: ls := by
  simp [books, merge, henc]

/-- What ends a level does to the level of the caller, and what its report says. -/
theorem commit_ends {a : Bool} {l : List ℕ} {ls : List (List ℕ)} (hs : Sound s)
    (henc : s.enclosing = l :: ls) (hrun : commitOrRollbackTransaction s = some (a, s')) :
    Sound s' ∧ s'.enclosing = ls ∧ l <+: s'.recorded ∧ (s'.lapsed = false → s.lapsed = false) ∧
      (a = true → s'.lapsed = false → s'.Kept) := by
  obtain ⟨hs', hbooks, hlapsed, hkept⟩ := commit_spec hs hrun
  cases a with
  | false =>
    obtain ⟨hrec, henc'⟩ := List.cons.inj (hbooks.trans (drop_books henc))
    exact ⟨hs', henc', hrec ▸ List.prefix_refl _, hlapsed, hkept⟩
  | true =>
    obtain ⟨hrec, henc'⟩ := List.cons.inj (hbooks.trans (merge_books henc))
    exact ⟨hs', henc', hrec ▸ List.prefix_append _ _, hlapsed, hkept⟩

theorem rollback_ends {l : List ℕ} {ls : List (List ℕ)} (hs : Sound s)
    (henc : s.enclosing = l :: ls) (hrun : rollbackTransaction s = some ((), s')) :
    Sound s' ∧ s'.enclosing = ls ∧ l <+: s'.recorded ∧ (s'.lapsed = false → s.lapsed = false) := by
  obtain ⟨hs', hbooks, hlapsed⟩ := rollback_spec hs hrun
  obtain ⟨hrec, henc'⟩ := List.cons.inj (hbooks.trans (drop_books henc))
  exact ⟨hs', henc', hrec ▸ List.prefix_refl _, hlapsed⟩

theorem runTransaction_spec {transaction : Program U Bool} (hcb : Keeps transaction) {a : Bool}
    (hs : Sound s) (hrun : runTransaction transaction s = some (a, s')) :
    Sound s' ∧ s'.enclosing = s.enclosing ∧ s.recorded <+: s'.recorded ∧
      (s'.lapsed = false → s.lapsed = false) ∧ (a = true → s'.lapsed = false → s'.Kept) := by
  rcases runTransaction_cases hrun with ⟨hbegin, rfl⟩ | ⟨s₁, s₂, hbegin, hend⟩
  · obtain ⟨hs', hlapsed, hbooks⟩ := begin_spec hs hbegin
    obtain ⟨hrec, henc⟩ := List.cons.inj hbooks
    exact ⟨hs', henc, hrec ▸ List.prefix_refl _, fun h => hlapsed ▸ h, by simp⟩
  · obtain ⟨hs₁, hlapsed₁, hbooks₁⟩ := begin_spec hs hbegin
    obtain ⟨-, henc₁⟩ := List.cons.inj hbooks₁
    rcases hend with ⟨hcallback, hcommit⟩ | ⟨hcallback, hrollback, rfl⟩
    · obtain ⟨hs₂, henc₂, -, hlapsed₂⟩ := hcb s₁ true s₂ hs₁ hcallback
      obtain ⟨hs', henc', hrec', hlapsed', hkept⟩ := commit_ends hs₂ (henc₂.trans henc₁) hcommit
      exact ⟨hs', henc', hrec', fun h => hlapsed₁ ▸ hlapsed₂ (hlapsed' h), hkept⟩
    · obtain ⟨hs₂, henc₂, -, hlapsed₂⟩ := hcb s₁ false s₂ hs₁ hcallback
      obtain ⟨hs', henc', hrec', hlapsed'⟩ := rollback_ends hs₂ (henc₂.trans henc₁) hrollback
      exact ⟨hs', henc', hrec', fun h => hlapsed₁ ▸ hlapsed₂ (hlapsed' h), by simp⟩

/-- One iteration of the loop. -/
theorem pausableLoop_cases {transaction : Bool → Program U (Bool × Bool)} {fuel : ℕ}
    {needBegin a : Bool} (hrun : pausableLoop transaction (fuel + 1) needBegin s = some (a, s')) :
    ∃ begun s₁, (if needBegin then beginTransaction else pure true) s = some (begun, s₁) ∧
      ((begun = false ∧ a = false ∧ s₁ = s') ∨
      begun = true ∧ ∃ result s₂, transaction needBegin s₁ = some (result, s₂) ∧
        ((a = false ∧ rollbackTransaction s₂ = some ((), s')) ∨
        ∃ busy s₃, checkMainThreadBusyRetry s₂ = some (busy, s₃) ∧
          (pausableLoop transaction fuel false s₃ = some (a, s') ∨
          ∃ succeed s₄, commitOrRollbackTransaction s₃ = some (succeed, s₄) ∧
            (s₄ = s' ∧ a = succeed ∨ pausableLoop transaction fuel true s₄ = some (a, s'))))) := by
  rw [pausableLoop, bind_eq_some] at hrun
  obtain ⟨begun, s₁, hbegin, hrun⟩ := hrun
  refine ⟨begun, s₁, hbegin, ?_⟩
  cases begun with
  | false =>
    obtain ⟨rfl, rfl⟩ := pure_eq_some.mp hrun
    exact .inl ⟨rfl, rfl, rfl⟩
  | true =>
    obtain ⟨⟨succeed, stop⟩, s₂, hcallback, hrun⟩ := bind_eq_some.mp hrun
    refine .inr ⟨rfl, _, s₂, hcallback, ?_⟩
    cases succeed with
    | false =>
      obtain ⟨⟨⟩, s₃, hrollback, hrun⟩ := bind_eq_some.mp hrun
      obtain ⟨rfl, rfl⟩ := pure_eq_some.mp hrun
      exact .inl ⟨rfl, hrollback⟩
    | true =>
      obtain ⟨busy, s₃, hbusy, hrun⟩ := bind_eq_some.mp hrun
      refine .inr ⟨busy, s₃, hbusy, ?_⟩
      dsimp only at hrun
      split at hrun
      · obtain ⟨succeed, s₄, hcommit, hrun⟩ := bind_eq_some.mp hrun
        refine .inr ⟨succeed, s₄, hcommit, ?_⟩
        cases succeed with
        | false =>
          obtain ⟨rfl, rfl⟩ := pure_eq_some.mp hrun
          exact .inl ⟨rfl, rfl⟩
        | true =>
          cases stop with
          | false => exact .inr hrun
          | true =>
            obtain ⟨rfl, rfl⟩ := pure_eq_some.mp hrun
            exact .inl ⟨rfl, rfl⟩
      · exact .inl hrun

/-- The loop is entered at the caller's level (`needBegin`) or in the middle of the level that it
has opened there. -/
theorem pausableLoop_spec {transaction : Bool → Program U (Bool × Bool)}
    (hcb : ∀ isNew, Keeps (transaction isNew)) {fuel : ℕ} {needBegin a : Bool} {r : List ℕ}
    {ls : List (List ℕ)} {s : Session U} (hs : Sound s)
    (hat : if needBegin then s.enclosing = ls ∧ r <+: s.recorded
      else ∃ l, s.enclosing = l :: ls ∧ r <+: l)
    (hrun : pausableLoop transaction fuel needBegin s = some (a, s')) :
    Sound s' ∧ s'.enclosing = ls ∧ r <+: s'.recorded ∧ (s'.lapsed = false → s.lapsed = false) ∧
      (a = true → s'.lapsed = false → s'.Kept) := by
  induction fuel generalizing needBegin s with
  | zero => cases hrun
  | succ fuel ih =>
    obtain ⟨begun, s₁, hbegin, hrun⟩ := pausableLoop_cases hrun
    -- after the begin, if there is one, the loop is inside its own level
    have hinside : Sound s₁ ∧ (s₁.lapsed = false → s.lapsed = false) ∧
        if begun then ∃ l, s₁.enclosing = l :: ls ∧ r <+: l
        else s₁.enclosing = ls ∧ r <+: s₁.recorded := by
      cases needBegin with
      | false =>
        obtain ⟨rfl, rfl⟩ := pure_eq_some.mp hbegin
        exact ⟨hs, id, hat⟩
      | true =>
        obtain ⟨hs₁, hlapsed₁, hbooks₁⟩ := begin_spec hs hbegin
        refine ⟨hs₁, fun h => hlapsed₁ ▸ h, ?_⟩
        cases begun with
        | false =>
          obtain ⟨hrec, henc⟩ := List.cons.inj hbooks₁
          exact ⟨henc.trans hat.1, hrec ▸ hat.2⟩
        | true =>
          obtain ⟨-, henc⟩ := List.cons.inj hbooks₁
          exact ⟨s.recorded, by rw [henc, books, hat.1], hat.2⟩
    obtain ⟨hs₁, hlapsed₁, hat₁⟩ := hinside
    rcases hrun with ⟨rfl, rfl, rfl⟩ | ⟨rfl, result, s₂, hcallback, hrun⟩
    · exact ⟨hs₁, hat₁.1, hat₁.2, hlapsed₁, by simp⟩
    obtain ⟨l, henc₁, hl⟩ := hat₁
    obtain ⟨hs₂, henc₂, -, hlapsed₂⟩ := hcb needBegin s₁ result s₂ hs₁ hcallback
    rcases hrun with ⟨rfl, hrollback⟩ | ⟨busy, s₃, hbusy, hrun⟩
    · obtain ⟨hs', henc', hrec', hlapsed'⟩ := rollback_ends hs₂ (henc₂.trans henc₁) hrollback
      exact ⟨hs', henc', hl.trans hrec', fun h => hlapsed₁ (hlapsed₂ (hlapsed' h)), by simp⟩
    obtain ⟨hs₃, henc₃, -, hlapsed₃⟩ := Plain.checkMainThreadBusyRetry.keeps s₂ busy s₃ hs₂ hbusy
    have henc : s₃.enclosing = l :: ls := henc₃.trans (henc₂.trans henc₁)
    rcases hrun with hrun | ⟨succeed, s₄, hcommit, hrun⟩
    · obtain ⟨hs', henc', hrec', hlapsed', hkept⟩ := @ih false s₃ hs₃ ⟨l, henc, hl⟩ hrun
      exact ⟨hs', henc', hrec', fun h => hlapsed₁ (hlapsed₂ (hlapsed₃ (hlapsed' h))), hkept⟩
    · obtain ⟨hs₄, henc₄, hrec₄, hlapsed₄, hkept₄⟩ := commit_ends hs₃ henc hcommit
      rcases hrun with ⟨rfl, rfl⟩ | hrun
      · exact ⟨hs₄, henc₄, hl.trans hrec₄,
          fun h => hlapsed₁ (hlapsed₂ (hlapsed₃ (hlapsed₄ h))), hkept₄⟩
      · obtain ⟨hs', henc', hrec', hlapsed', hkept⟩ := @ih true s₄ hs₄ ⟨henc₄, hl.trans hrec₄⟩ hrun
        exact ⟨hs', henc', hrec',
          fun h => hlapsed₁ (hlapsed₂ (hlapsed₃ (hlapsed₄ (hlapsed' h)))), hkept⟩

theorem runPausable_spec {transaction : Bool → Program U (Bool × Bool)}
    (hcb : ∀ isNew, Keeps (transaction isNew)) {fuel : ℕ} {a : Bool} (hs : Sound s)
    (hrun : runPausableTransactionWithOneLoop fuel transaction s = some (a, s')) :
    Sound s' ∧ s'.enclosing = s.enclosing ∧ s.recorded <+: s'.recorded ∧
      (s'.lapsed = false → s.lapsed = false) ∧ (a = true → s'.lapsed = false → s'.Kept) := by
  refine pausableLoop_spec hcb hs ?_ hrun
  exact ⟨rfl, List.prefix_refl _⟩

/-- **Callbacks keep the records**, whatever they do. -/
theorem Callback.keeps {α : Type} {p : Program U α} (hp : Callback p) : Keeps p := by
  induction hp with
  | pure a =>
    intro s b s' hs hrun
    obtain ⟨rfl, rfl⟩ := pure_eq_some.mp hrun
    exact ⟨hs, rfl, List.prefix_refl _, id⟩
  | bind hp hf ihp ihf =>
    intro s b s' hs hrun
    obtain ⟨a, s₁, hp, hf⟩ := bind_eq_some.mp hrun
    obtain ⟨hs₁, henc₁, hrec₁, hlapsed₁⟩ := ihp s a s₁ hs hp
    obtain ⟨hs', henc', hrec', hlapsed'⟩ := ihf a s₁ b s' hs₁ hf
    exact ⟨hs', henc'.trans henc₁, hrec₁.trans hrec', fun h => hlapsed₁ (hlapsed' h)⟩
  | plain hp => exact hp.keeps
  | runTransaction hcb ih =>
    intro s a s' hs hrun
    obtain ⟨hs', henc, hrec, hlapsed, -⟩ := runTransaction_spec ih hs hrun
    exact ⟨hs', henc, hrec, hlapsed⟩
  | runPausable fuel hcb ih =>
    intro s a s' hs hrun
    obtain ⟨hs', henc, hrec, hlapsed, -⟩ := runPausable_spec ih hs hrun
    exact ⟨hs', henc, hrec, hlapsed⟩

theorem Reachable.sound (hr : Reachable s) : Sound s := by
  induction hr with
  | start lite outcomes busy memory => exact sound_start lite outcomes busy memory
  | plain hr hp hrun ih => exact (hp.keeps _ _ _ ih hrun).1
  | beginTransaction hr hrun ih => exact (begin_spec ih hrun).1
  | commitOrRollbackTransaction hr hrun ih => exact (commit_spec ih hrun).1
  | rollbackTransaction hr hrun ih => exact (rollback_spec ih hrun).1

/-- The three calls that report a commit, from a session `s` to a session `s'`: a direct
`commitOrRollbackTransaction` on an open level of the caller's, or one of the two that run a
callback in a transaction. -/
inductive ReportsCommit (s s' : Session U) : Prop where
  | commitOrRollback : s.enclosing ≠ [] → commitOrRollbackTransaction s = some (true, s') →
      ReportsCommit s s'
  | runTransaction {transaction : Program U Bool} : Callback transaction →
      runTransaction transaction s = some (true, s') → ReportsCommit s s'
  | runPausable {transaction : Bool → Program U (Bool × Bool)} {fuel : ℕ} :
      (∀ isNew, Callback (transaction isNew)) →
      runPausableTransactionWithOneLoop fuel transaction s = some (true, s') → ReportsCommit s s'

/-- **A reported commit is a commit in every session without lapses**: at any nesting depth,
whatever SQLite rolls back on its own, and whichever way the session was reached. -/
theorem kept_of_no_lapse (hr : Reachable s) (hcommit : ReportsCommit s s')
    (hlapsed : s'.lapsed = false) : s'.Kept := by
  have hs : Sound s := hr.sound
  cases hcommit with
  | commitOrRollback _ hrun => exact (commit_spec hs hrun).2.2.2 rfl hlapsed
  | runTransaction hcb hrun =>
    obtain ⟨-, -, -, -, hkept⟩ := runTransaction_spec hcb.keeps hs hrun
    exact hkept rfl hlapsed
  | runPausable hcb hrun =>
    obtain ⟨-, -, -, -, hkept⟩ := runPausable_spec (fun isNew => (hcb isNew).keeps) hs hrun
    exact hkept rfl hlapsed

/-- A statement, and two more in an inner transaction. -/
def innerWrites : Program Unit Bool := do
  let _ ← execute
  runTransaction do
    let _ ← execute
    let _ ← execute
    return true

theorem callback_innerWrites : Callback innerWrites :=
  .bind (.plain .execute) fun _ => .runTransaction
    (.bind (.plain .execute) fun _ => .bind (.plain .execute) fun _ => .pure true)

/-- SQLite rolls back while the first statement of the transaction fails: no write is discarded,
and the later writes reach the database through the inner transaction. -/
theorem kept_innerWrites :
    ∃ s', runTransaction innerWrites (start false [.done, .rolledBack] [] ()) = some (true, s') ∧
      s'.recorded = [1, 2] ∧ s'.Kept :=
  ⟨_, rfl, rfl, kept_of_no_lapse (.start false [.done, .rolledBack] [] ())
    (.runTransaction callback_innerWrites rfl) rfl⟩

/-- Two statements whose failures the client does not take as its own. -/
def twoWrites : Program Unit Bool := do
  let _ ← execute
  let _ ← execute
  return true

/-- The second statement fails and SQLite rolls the transaction back: `runTransaction` returns
`true`, and the first write, which reported success, is nowhere. -/
theorem not_kept_twoWrites :
    ¬ ∀ s s' : Session Unit, Reachable s → ReportsCommit s s' → s'.Kept := by
  intro hkept
  have hcb : Callback twoWrites :=
    .bind (.plain .execute) fun _ => .bind (.plain .execute) fun _ => .pure true
  have hreport := hkept _ _ (.start false [.done, .done, .rolledBack] [] ())
    (.runTransaction hcb rfl)
  exact absurd hreport (by decide)

end Session

end Wcdb
