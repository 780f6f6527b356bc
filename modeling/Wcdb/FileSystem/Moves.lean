import Wcdb.FileSystem.Footprint

/-!
# Removing and moving the files of a database

The frame rule says what a program leaves alone; here is what it does to the files it is
about. Three specifications carry every argument about the factory:

* `safe_removeItem_file`: removing one file either removes it or fails and changes nothing;
* `safe_removeItems`: removing a list of files of one directory;
* `safe_moveLoop`: the first loop of `moveItems` between two directories, whose end is one of
  three outcomes (`MoveOutcome`): **finished**, **broke** at a status that could not be read
  (with the result still `true`), or **failed**.

Each names the failing call, so that an assumption about which calls fail in which states
rules the bad outcomes out.
-/

namespace Wcdb

open Crash FileManager

variable {F : Type}

theorem Fs.erase_eq_self {s : Fs F} {p : Path} (h : s.files p = none) : s.erase p = s := by
  have hfiles : (s.erase p).files = s.files := by
    funext q
    by_cases hq : q = p <;> simp [Fs.erase, hq, h]
  cases s
  simp only [Fs.erase, Fs.mk.injEq, and_true] at hfiles ⊢
  exact hfiles

@[simp]
theorem Fs.erase_files (s : Fs F) (p q : Path) :
    (s.erase p).files q = if q = p then none else s.files q := rfl

@[simp]
theorem Fs.erase_dirs (s : Fs F) (p : Path) : (s.erase p).dirs = s.dirs := rfl

@[simp]
theorem Fs.put_files (s : Fs F) (p q : Path) (f : F) (hp : p.dir ∈ s.dirs) :
    (s.put p f hp).files q = if q = p then some f else s.files q := rfl

@[simp]
theorem Fs.put_dirs (s : Fs F) (p : Path) (f : F) (hp : p.dir ∈ s.dirs) :
    (s.put p f hp).dirs = s.dirs := rfl

@[simp]
theorem handle_stat_fault {empty : F} {o : Oracle F} (hf : o.fault = true) (site : Site) (i : Item)
    (s : Fs F) : handle empty (.stat site i) o s = (Stat.error, s) := by
  simp [handle, hf]

theorem handle_stat {empty : F} {o : Oracle F} (hf : o.fault = false) (site : Site) (i : Item)
    (s : Fs F) : handle empty (.stat site i) o s = (s.status i, s) := by
  simp [handle, hf]

theorem Fs.status_file_none {s : Fs F} {p : Path} (h : s.files p = none) :
    s.status (.file p) = .absent := by
  simp [Fs.status, h]

theorem Fs.status_file_some {s : Fs F} {p : Path} {f : F} (h : s.files p = some f) :
    s.status (.file p) = .file := by
  simp [Fs.status, h]

/-- The files of a database, as items of one directory. -/
def filesIn (d : Dir) (es : List Ext) : List Item := es.map fun e => .file ⟨d, e⟩

section Specs

variable {empty : F} {ok : Call → Oracle F → Fs F → Prop} {I : Fs F → Prop}

/-- One file: removed, or a failing call and no change. -/
theorem safe_removeItem_file (fuel : ℕ) {p : Path} {s : Fs F} (hs : I s) (herase : I (s.erase p)) :
    Prog.Safe (handle empty) ok I (removeItem fuel (.file p))
      (fun r t => (r = true ∧ t = s.erase p) ∨
        (r = false ∧ t = s ∧ ∃ c o, ok c o s ∧ o.fault = true ∧
          (c = .stat .removeItem (.file p) ∨ c = .unlink p))) s := by
  refine Prog.Safe.call hs fun o ho => ?_
  cases hf : o.fault with
  | true =>
    rw [handle_stat_fault hf]
    exact ⟨hs, Or.inr ⟨rfl, rfl, _, o, ho, hf, Or.inl rfl⟩⟩
  | false =>
    rw [handle_stat hf]
    cases hp : s.files p with
    | none =>
      rw [Fs.status_file_none hp]
      exact ⟨hs, Or.inl ⟨rfl, (Fs.erase_eq_self hp).symm⟩⟩
    | some f =>
      rw [Fs.status_file_some hp]
      refine Prog.Safe.call hs fun o' ho' => ?_
      cases hf' : o'.fault with
      | true =>
        simp only [handle, hf', if_true]
        exact ⟨hs, Or.inr ⟨rfl, rfl, _, o', ho', hf', Or.inr rfl⟩⟩
      | false =>
        simp only [handle, hf', if_false, Bool.false_eq_true]
        exact ⟨herase, Or.inl ⟨rfl, rfl⟩⟩

/-- How far the removal of files `es` of the directory `d` has got. -/
structure Erasing (d : Dir) (es : List Ext) (s t : Fs F) : Prop where
  dirs : t.dirs = s.dirs
  off : ∀ p, (p.dir = d → p.ext ∉ es) → t.files p = s.files p
  file : ∀ e, t.files ⟨d, e⟩ = s.files ⟨d, e⟩ ∨ t.files ⟨d, e⟩ = none

theorem Erasing.refl (d : Dir) (es : List Ext) (s : Fs F) : Erasing d es s s :=
  ⟨rfl, fun _ _ => rfl, fun _ => Or.inl rfl⟩

theorem Erasing.erase {d : Dir} {es : List Ext} {s t : Fs F} (h : Erasing d es s t) {e : Ext}
    (he : e ∈ es) : Erasing d es s (t.erase ⟨d, e⟩) := by
  refine ⟨h.dirs, fun p hp => ?_, fun e' => ?_⟩
  · have hne : p ≠ ⟨d, e⟩ := fun hpe => hp (congrArg Path.dir hpe) (congrArg Path.ext hpe ▸ he)
    simpa [hne] using h.off p hp
  · by_cases hee : e' = e
    · simp [hee]
    · simpa [hee] using h.file e'

/-- Files of one directory: all removed, or a failing call on the way. -/
theorem safe_removeItems (fuel : ℕ) {d : Dir} {es : List Ext} {s : Fs F}
    (hI : ∀ t, Erasing d es s t → I t) :
    Prog.Safe (handle empty) ok I (removeItems fuel (filesIn d es))
      (fun r t => Erasing d es s t ∧ ((r = true ∧ ∀ e ∈ es, t.files ⟨d, e⟩ = none) ∨
        (r = false ∧ ∃ c o, ok c o t ∧ o.fault = true))) s := by
  -- The induction is on the files left to remove, `done` being removed already.
  have key : ∀ (l done : List Ext) (t : Fs F), es = done ++ l → Erasing d es s t →
      (∀ e ∈ done, t.files ⟨d, e⟩ = none) →
      Prog.Safe (handle empty) ok I (removeItems fuel (filesIn d l))
        (fun r t => Erasing d es s t ∧ ((r = true ∧ ∀ e ∈ es, t.files ⟨d, e⟩ = none) ∨
          (r = false ∧ ∃ c o, ok c o t ∧ o.fault = true))) t := by
    intro l
    induction l with
    | nil =>
      intro done t hes ht hdone
      refine ⟨hI t ht, ht, Or.inl ⟨rfl, ?_⟩⟩
      simpa [hes] using hdone
    | cons e rest ih =>
      intro done t hes ht hdone
      have he : e ∈ es := by simp [hes]
      refine Prog.Safe.bind (safe_removeItem_file fuel (hI t ht) (hI _ (ht.erase he))) ?_
      rintro r u hu (⟨rfl, rfl⟩ | ⟨rfl, rfl, c, o, ho, hf, -⟩)
      · refine ih (done ++ [e]) _ (by simp [hes]) (ht.erase he) fun e' he' => ?_
        by_cases hee : e' = e
        · simp [hee]
        · have hmem : e' ∈ done := by simpa [hee] using he'
          simpa [hee] using hdone e' hmem
      · exact ⟨hu, ht, Or.inr ⟨rfl, c, o, ho, hf⟩⟩
  exact key es [] s rfl (Erasing.refl d es s) (by simp)

/-! ### The moving loop -/

/-- What bringing a file `f` to its new place leaves at the old one. -/
def MoveVariant.leaves (v : MoveVariant) (f : F) : Option F :=
  match v with
  | .hardLink => some f
  | .rename => none

/-- Source and destination of one file in the course of a move, given both at its start. -/
def MovingFile (v : MoveVariant) (a₀ b₀ a b : Option F) : Prop :=
  (a = a₀ ∧ (b = b₀ ∨ b = none ∨ (v = .hardLink ∧ b = a₀))) ∨ (v = .rename ∧ a = none ∧ b = a₀)

/-- The states in the course of a move from the directory `a` to the directory `b`. -/
structure Moving (v : MoveVariant) (a b : Dir) (s t : Fs F) : Prop where
  dirs : t.dirs = s.dirs
  off : ∀ p, p.dir ≠ a → p.dir ≠ b → t.files p = s.files p
  file : ∀ e, MovingFile v (s.files ⟨a, e⟩) (s.files ⟨b, e⟩) (t.files ⟨a, e⟩) (t.files ⟨b, e⟩)

/-- A state at the head of the loop: the files `pre` have been dealt with, the files `post`
have not been touched. -/
structure LoopAt (v : MoveVariant) (a b : Dir) (pre post : List Ext) (s t : Fs F) : Prop
    extends Moving v a b s t where
  placed : ∀ e ∈ pre, t.files ⟨b, e⟩ = (s.files ⟨a, e⟩).or (s.files ⟨b, e⟩)
  left : ∀ e ∈ post, t.files ⟨a, e⟩ = s.files ⟨a, e⟩ ∧ t.files ⟨b, e⟩ = s.files ⟨b, e⟩

/-- The calls by which the loop brings one file to its new place. -/
def Call.Places (v : MoveVariant) (p q : Path) (c : Call) : Prop :=
  c = .stat .removeItem (.file q) ∨ c = .unlink q ∨
    (match v with | .hardLink => c = .link p q | .rename => c = .rename p q)

/-- **How the loop can end.** -/
inductive MoveOutcome (ok : Call → Oracle F → Fs F → Prop) (v : MoveVariant) (a b : Dir)
    (es : List Ext) (s : Fs F) : Bool × List Item → Fs F → Prop where
  | finished {recovers : List Item} {t : Fs F} (at_end : LoopAt v a b es [] s t) :
      MoveOutcome ok v a b es s (true, recovers) t
  | broke {recovers : List Item} {t : Fs F} (pre : List Ext) (e : Ext) (post : List Ext)
      (split : es = pre ++ e :: post) (at_break : LoopAt v a b pre (e :: post) s t)
      (o : Oracle F) (admitted : ok (.stat .moveItems (.file ⟨a, e⟩)) o t)
      (fault : o.fault = true) : MoveOutcome ok v a b es s (true, recovers) t
  | failed {recovers : List Item} {t : Fs F} (pre : List Ext) (e : Ext) (post : List Ext)
      (split : es = pre ++ e :: post) (moving : Moving v a b s t)
      (src_left : ∀ e' ∈ e :: post, t.files ⟨a, e'⟩ = s.files ⟨a, e'⟩)
      (dst_left : ∀ e' ∈ e :: post,
        t.files ⟨b, e'⟩ = s.files ⟨b, e'⟩ ∨ t.files ⟨b, e'⟩ = none)
      (recovers_dst : ∀ i ∈ recovers, ∃ e' ∈ pre, i = .file ⟨b, e'⟩)
      (cause : b ∉ s.dirs ∨ ∃ c o, ok c o t ∧ o.fault = true ∧ c.Places v ⟨a, e⟩ ⟨b, e⟩) :
      MoveOutcome ok v a b es s (false, recovers) t

/-- The files of a move, with their destinations. -/
def movePairs (a b : Dir) (es : List Ext) : List (Item × Item) :=
  es.map fun e => (.file ⟨a, e⟩, .file ⟨b, e⟩)

theorem Moving.refl (v : MoveVariant) (a b : Dir) (s : Fs F) : Moving v a b s s :=
  ⟨rfl, fun _ _ _ => rfl, fun _ => Or.inl ⟨rfl, Or.inl rfl⟩⟩

namespace LoopAt

variable {v : MoveVariant} {a b : Dir} {pre post : List Ext} {e : Ext} {s t : Fs F}

theorem start (v : MoveVariant) (a b : Dir) (es : List Ext) (s : Fs F) :
    LoopAt v a b [] es s s :=
  { Moving.refl v a b s with placed := by simp, left := fun _ _ => ⟨rfl, rfl⟩ }

/-- A file without a source is passed over. -/
theorem skip (h : LoopAt v a b pre (e :: post) s t) (he : t.files ⟨a, e⟩ = none) :
    LoopAt v a b (pre ++ [e]) post s t := by
  obtain ⟨ha, hb⟩ := h.left e List.mem_cons_self
  refine { h.toMoving with placed := fun e' he' => ?_, left := fun e' he' => ?_ }
  · rcases List.mem_append.mp he' with he' | he'
    · exact h.placed e' he'
    · rw [List.mem_singleton.mp he', ← ha, he, hb, Option.none_or]
  · exact h.left e' (List.mem_cons_of_mem _ he')

/-- The destination of the next file is cleared. -/
theorem erase (h : LoopAt v a b pre (e :: post) s t) (hab : a ≠ b) :
    Moving v a b s (t.erase ⟨b, e⟩) := by
  refine ⟨h.dirs, fun p hpa hpb => ?_, fun e' => ?_⟩
  · have hne : p ≠ ⟨b, e⟩ := fun hpe => hpb (congrArg Path.dir hpe)
    simpa [hne] using h.off p hpa hpb
  · have ha : (⟨a, e'⟩ : Path) ≠ ⟨b, e⟩ := fun hp => hab (congrArg Path.dir hp)
    by_cases hee : e' = e
    · obtain ⟨hla, -⟩ := h.left e List.mem_cons_self
      subst hee
      exact Or.inl ⟨by simpa [ha] using hla, Or.inr (Or.inl (by simp))⟩
    · have := h.file e'
      simpa [ha, hee] using this

/-- The next file is brought to its new place. -/
theorem place (h : LoopAt v a b pre (e :: post) s t)
    (hnodup : (pre ++ e :: post).Nodup) {u : Fs F} {f : F} (hf : t.files ⟨a, e⟩ = some f)
    (hdirs : u.dirs = t.dirs)
    (hoff : ∀ p, p ≠ ⟨a, e⟩ → p ≠ ⟨b, e⟩ → u.files p = t.files p)
    (hdst : u.files ⟨b, e⟩ = some f)
    (hsrc : u.files ⟨a, e⟩ = v.leaves f) :
    LoopAt v a b (pre ++ [e]) post s u := by
  obtain ⟨hla, -⟩ := h.left e List.mem_cons_self
  have hother : ∀ e' d, e' ≠ e → u.files ⟨d, e'⟩ = t.files ⟨d, e'⟩ := fun e' d hne =>
    hoff _ (fun hp => hne (congrArg Path.ext hp)) fun hp => hne (congrArg Path.ext hp)
  refine
    { dirs := hdirs.trans h.dirs, off := fun p hpa hpb => ?_, file := fun e' => ?_,
      placed := fun e' he' => ?_, left := fun e' he' => ?_ }
  · rw [hoff p (fun hp => hpa (congrArg Path.dir hp)) fun hp => hpb (congrArg Path.dir hp)]
    exact h.off p hpa hpb
  · by_cases hee : e' = e
    · subst hee
      rw [hdst, hsrc, ← hla, hf]
      cases v
      · exact Or.inl ⟨rfl, Or.inr (Or.inr ⟨rfl, rfl⟩)⟩
      · exact Or.inr ⟨rfl, rfl, rfl⟩
    · rw [hother e' a hee, hother e' b hee]
      exact h.file e'
  · by_cases hee : e' = e
    · rw [hee, hdst, ← hla, hf, Option.some_or]
    · have hmem : e' ∈ pre := by simpa [hee] using he'
      rw [hother e' b hee]
      exact h.placed e' hmem
  · have hne : e' ≠ e := by
      rintro rfl
      have := (List.nodup_append.mp hnodup).2.1
      exact (List.nodup_cons.mp this).1 he'
    rw [hother e' a hne, hother e' b hne]
    exact h.left e' (List.mem_cons_of_mem _ he')

end LoopAt

/-- What bringing one file to its cleared new place does. -/
theorem safe_moveOne (v : MoveVariant) (fuel : ℕ) {p q : Path} (hpq : p ≠ q) {s : Fs F} {f : F}
    (hp : s.files p = some f) (hq : s.files q = none) (hs : I s)
    (hmoved : ∀ t : Fs F, t.dirs = s.dirs → (∀ r, r ≠ p → r ≠ q → t.files r = s.files r) →
      t.files q = some f → t.files p = v.leaves f → I t) :
    Prog.Safe (handle empty) ok I (moveOne v fuel (.file p) (.file q))
      (fun r t =>
        (r = true ∧ t.dirs = s.dirs ∧ (∀ r, r ≠ p → r ≠ q → t.files r = s.files r) ∧
          t.files q = some f ∧ t.files p = v.leaves f) ∨
        (r = false ∧ t = s ∧ (q.dir ∉ s.dirs ∨
          ∃ c o, ok c o s ∧ o.fault = true ∧ c.Places v p q))) s := by
  cases v with
  | hardLink =>
    refine Prog.Safe.call hs fun o ho => ?_
    cases hf : o.fault with
    | true =>
      simp only [handle, hf, if_true]
      exact ⟨hs, Or.inr ⟨rfl, rfl, Or.inr ⟨_, o, ho, hf, Or.inr (Or.inr rfl)⟩⟩⟩
    | false =>
      by_cases hd : q.dir ∈ s.dirs
      · simp only [handle, hf, hp, hq, hd, Bool.false_eq_true, if_false, dite_true]
        have hoff : ∀ r, r ≠ p → r ≠ q → (s.put q f hd).files r = s.files r := by
          intro r _ hr
          simp [hr]
        have hdst : (s.put q f hd).files q = some f := by simp
        have hsrc : (s.put q f hd).files p = some f := by simp [hpq, hp]
        exact ⟨hmoved _ rfl hoff hdst hsrc, Or.inl ⟨rfl, rfl, hoff, hdst, hsrc⟩⟩
      · have hstep : handle empty (.link p q) o s = (false, s) := by
          simp [handle, hf, hp, hq, hd]
        rw [hstep]
        exact ⟨hs, Or.inr ⟨rfl, rfl, Or.inl hd⟩⟩
  | rename =>
    refine Prog.Safe.call hs fun o ho => ?_
    cases hf : o.fault with
    | true =>
      simp only [handle, hf, if_true]
      exact ⟨hs, Or.inr ⟨rfl, rfl, Or.inr ⟨_, o, ho, hf, Or.inr (Or.inr rfl)⟩⟩⟩
    | false =>
      by_cases hd : q.dir ∈ s.dirs
      · simp only [handle, hf, hp, hd, Bool.false_eq_true, if_false, dite_true]
        have hoff : ∀ r, r ≠ p → r ≠ q → ((s.put q f hd).erase p).files r = s.files r := by
          intro r hr hr'
          simp [hr, hr']
        have hdst : ((s.put q f hd).erase p).files q = some f := by simp [hpq.symm]
        have hsrc : ((s.put q f hd).erase p).files p = none := by simp
        exact ⟨hmoved _ rfl hoff hdst hsrc, Or.inl ⟨rfl, rfl, hoff, hdst, hsrc⟩⟩
      · have hstep : handle empty (.rename p q) o s = (false, s) := by
          simp [handle, hf, hp, hd]
        rw [hstep]
        exact ⟨hs, Or.inr ⟨rfl, rfl, Or.inl hd⟩⟩

/-- **The moving loop.** If the invariant holds in every state in the course of the move, the
loop is safe and ends in one of the three outcomes. -/
theorem safe_moveLoop (v : MoveVariant) (fuel : ℕ) {a b : Dir} (hab : a ≠ b) {es : List Ext}
    (hnodup : es.Nodup) {s : Fs F} (hI : ∀ t, Moving v a b s t → I t) :
    Prog.Safe (handle empty) ok I (moveLoop v fuel (movePairs a b es) [])
      (MoveOutcome ok v a b es s) s := by
  -- The induction is on the files left, `pre` having been dealt with.
  have key : ∀ (l pre : List Ext) (recovers : List Item) (t : Fs F), es = pre ++ l →
      (∀ i ∈ recovers, ∃ e ∈ pre, i = .file ⟨b, e⟩) → LoopAt v a b pre l s t →
      Prog.Safe (handle empty) ok I (moveLoop v fuel (movePairs a b l) recovers)
        (MoveOutcome ok v a b es s) t := by
    intro l
    induction l with
    | nil =>
      intro pre recovers t hes _ ht
      obtain rfl : es = pre := by simpa using hes
      exact ⟨hI t ht.toMoving, .finished ht⟩
    | cons e rest ih =>
      intro pre recovers t hes hrec ht
      have hes' : es = (pre ++ [e]) ++ rest := by simp [hes]
      obtain ⟨hla, hlb⟩ := ht.left e List.mem_cons_self
      have hpq : (⟨a, e⟩ : Path) ≠ ⟨b, e⟩ := fun hp => hab (congrArg Path.dir hp)
      refine Prog.Safe.call (hI t ht.toMoving) fun o ho => ?_
      cases hf : o.fault with
      | true =>
        rw [handle_stat_fault hf]
        exact ⟨hI t ht.toMoving, .broke pre e rest hes ht o ho hf⟩
      | false =>
      rw [handle_stat hf]
      cases hsrc : t.files ⟨a, e⟩ with
      | none =>
        rw [Fs.status_file_none hsrc]
        refine ih (pre ++ [e]) recovers t hes' (fun i hi => ?_) (ht.skip hsrc)
        obtain ⟨e', he', rfl⟩ := hrec i hi
        exact ⟨e', List.mem_append_left _ he', rfl⟩
      | some f =>
        rw [Fs.status_file_some hsrc]
        have herase := ht.erase hab
        change Prog.Safe (handle empty) ok I (removeItem fuel (.file ⟨b, e⟩) >>= _) _ t
        refine Prog.Safe.bind (safe_removeItem_file fuel (hI t ht.toMoving) (hI _ herase)) ?_
        rintro r u hu (⟨rfl, rfl⟩ | ⟨rfl, rfl, c, o', ho', hf', hc⟩)
        · -- The destination is clear.
          have hsrc' : (t.erase ⟨b, e⟩).files ⟨a, e⟩ = some f := by simp [hpq, hsrc]
          have hplace : ∀ u : Fs F, u.dirs = t.dirs →
              (∀ p, p ≠ ⟨a, e⟩ → p ≠ ⟨b, e⟩ → u.files p = (t.erase ⟨b, e⟩).files p) →
              u.files ⟨b, e⟩ = some f → u.files ⟨a, e⟩ = v.leaves f →
              LoopAt v a b (pre ++ [e]) rest s u := by
            intro u hud huo hub hua
            refine ht.place (hes ▸ hnodup) hsrc hud (fun p hpa hpb => ?_) hub hua
            rw [huo p hpa hpb]
            simp [hpb]
          refine Prog.Safe.bind (safe_moveOne v fuel hpq hsrc' (by simp) hu
            fun u hud huo hub hua => hI u (hplace u hud huo hub hua).toMoving) ?_
          rintro r w hw (⟨rfl, hwd, hwo, hwb, hwa⟩ | ⟨rfl, rfl, hcause⟩)
          · refine ih (pre ++ [e]) _ w hes' (fun i hi => ?_) (hplace w hwd hwo hwb hwa)
            rcases List.mem_append.mp hi with hi | hi
            · obtain ⟨e', he', rfl⟩ := hrec i hi
              exact ⟨e', List.mem_append_left _ he', rfl⟩
            · exact ⟨e, by simp, List.mem_singleton.mp hi⟩
          · refine ⟨hw, .failed pre e rest hes herase (fun e' he' => ?_) (fun e' he' => ?_) hrec ?_⟩
            · have ha : (⟨a, e'⟩ : Path) ≠ ⟨b, e⟩ := fun hp => hab (congrArg Path.dir hp)
              simpa [ha] using (ht.left e' he').1
            · by_cases hee : e' = e
              · exact Or.inr (by simp [hee])
              · exact Or.inl (by simpa [hee] using (ht.left e' he').2)
            · exact hcause.imp (fun hd => by simpa [← ht.dirs] using hd) id
        · refine ⟨hu, .failed pre e rest hes ht.toMoving (fun e' he' => (ht.left e' he').1)
            (fun e' he' => Or.inl (ht.left e' he').2) hrec (Or.inr ⟨c, o', ho', hf', ?_⟩)⟩
          exact hc.elim Or.inl fun h => Or.inr (Or.inl h)
  exact key es [] [] s rfl (by simp) (LoopAt.start v a b es s)

end Specs

end Wcdb
