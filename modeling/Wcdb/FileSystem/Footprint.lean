import Wcdb.FileSystem.FileManager

/-!
# Footprints: which files a program can change

`Touches R p` says of the *text* of a program that every call it can issue changes only files
in the region `R`. It is established once per function of `FileManager`, independently of any
failure, and `Touches.safe` turns it into the frame rule: an invariant that does not look at
`R` holds wherever such a program stops, and the files off `R` are the same afterwards.
-/

namespace Wcdb

open Crash

/-- A region of the file system. -/
abbrev Region := Path → Prop

/-- Lying below a directory is decidable. -/
def Dir.decidableWithin (r : Dir) : (d : Dir) → Decidable (Dir.Within r d)
  | .base => inferInstanceAs (Decidable (Dir.base = r))
  | .temporary => inferInstanceAs (Decidable (Dir.temporary = r))
  | .sub d n =>
      have := Dir.decidableWithin r d
      inferInstanceAs (Decidable (Dir.sub d n = r ∨ Dir.Within r d))

/-- The files in `d` and below it. -/
def below (d : Dir) : Region := fun p => Dir.Within d p.dir

/-- The files directly in `d`. -/
def inDir (d : Dir) : Region := fun p => p.dir = d

instance (r d : Dir) : Decidable (Dir.Within r d) := Dir.decidableWithin r d

instance (d : Dir) (p : Path) : Decidable (below d p) :=
  inferInstanceAs (Decidable (Dir.Within d p.dir))

instance (d : Dir) (p : Path) : Decidable (inDir d p) :=
  inferInstanceAs (Decidable (p.dir = d))

/-- The files that removing an item can remove. -/
def Item.region : Item → Region
  | .file p => fun q => q = p
  | .dir d => below d

/-- The two states have the same files off the region. -/
def SameOff {F : Type} (R : Region) (s t : Fs F) : Prop := ∀ p, ¬R p → t.files p = s.files p

namespace SameOff

variable {F : Type} {R : Region} {s t u : Fs F}

theorem refl (R : Region) (s : Fs F) : SameOff R s s := fun _ _ => rfl

theorem trans (h₁ : SameOff R s t) (h₂ : SameOff R t u) : SameOff R s u := fun p hp =>
  (h₂ p hp).trans (h₁ p hp)

theorem mono {R' : Region} (h : SameOff R s t) (hR : ∀ p, R p → R' p) : SameOff R' s t :=
  fun p hp => h p fun hr => hp (hR p hr)

end SameOff

/-- The files a call can change lie in the region. -/
def Call.Within (R : Region) : Call → Prop
  | .unlink p => R p
  | .link _ dst => R dst
  | .rename src dst => R src ∧ R dst
  | .renameDir src dst => ∀ p, below src p ∨ below dst p → R p
  | .createFile p => R p
  | .executeVacuum d => (∀ p, inDir d p → R p) ∧ R ⟨.base, .main⟩ ∧ R ⟨.base, .wal⟩
  | .assemble d => ∀ p, inDir d p → R p
  | _ => True

theorem Dir.within_of_rebase {r r' : Dir} :
    ∀ {d e : Dir}, Dir.rebase r r' d = some e → Dir.Within r d
  | .base, e, h => by
    unfold Dir.rebase at h
    split at h <;> simp_all [Dir.Within]
  | .temporary, e, h => by
    unfold Dir.rebase at h
    split at h <;> simp_all [Dir.Within]
  | .sub p n, e, h => by
    unfold Dir.rebase at h
    split at h
    · next hr => exact Or.inl hr
    · obtain ⟨q, hq, -⟩ := Option.map_eq_some_iff.mp h
      exact Or.inr (Dir.within_of_rebase hq)

section Frame

variable {F : Type} {empty : F}

theorem Fs.moveDir_sameOff {s : Fs F} {src dst : Dir} (hdst) {R : Region}
    (hR : ∀ p, below src p ∨ below dst p → R p) : SameOff R s (s.moveDir src dst hdst) := by
  intro p hp
  have hd : Dir.rebase dst src p.dir = none := by
    by_contra hne
    obtain ⟨e, he⟩ := Option.ne_none_iff_exists'.mp hne
    exact hp (hR p (Or.inr (Dir.within_of_rebase he)))
  have hs : Dir.rebase src dst p.dir = none := by
    by_contra hne
    obtain ⟨e, he⟩ := Option.ne_none_iff_exists'.mp hne
    exact hp (hR p (Or.inl (Dir.within_of_rebase he)))
  simp [Fs.moveDir, hd, hs]

/-- **A call changes nothing off its footprint**, whatever the environment decides. -/
theorem handle_sameOff {R : Region} {c : Call} (hc : c.Within R) (o : Oracle F) (s : Fs F) :
    SameOff R s (handle empty c o s).2 := by
  intro p hp
  cases c with
  | stat site i => rfl
  | now => rfl
  | opendir d => rfl
  | unlink q =>
    have hq : p ≠ q := fun h => hp (h ▸ hc)
    by_cases hf : o.fault <;> simp [handle, hf, Fs.erase, hq]
  | rmdir d =>
    by_cases hf : o.fault
    · simp [handle, hf]
    · by_cases he : s.entries d = [] <;> simp [handle, hf, he, Fs.dropDir]
  | mkdir d =>
    simp only [handle]
    split_ifs <;> rfl
  | link src dst =>
    have hq : p ≠ dst := fun h => hp (h ▸ hc)
    simp only [handle]
    split_ifs
    · rfl
    · split <;> simp [Fs.put, hq]
    · split <;> rfl
  | rename src dst =>
    have hsrc : p ≠ src := fun h => hp (h ▸ hc.1)
    have hdst : p ≠ dst := fun h => hp (h ▸ hc.2)
    simp only [handle]
    split_ifs
    · rfl
    · split <;> simp [Fs.put, Fs.erase, hsrc, hdst]
    · split <;> rfl
  | renameDir src dst =>
    simp only [handle]
    split_ifs with _ hmove
    · rfl
    · exact Fs.moveDir_sameOff (Fs.canMoveDir_sub hmove) hc p hp
    · rfl
  | createFile q =>
    have hq : p ≠ q := fun h => hp (h ▸ hc)
    simp only [handle]
    split_ifs
    · rfl
    · rfl
    · simp [Fs.put, hq]
    · rfl
  | executeVacuum d =>
    have hd : p.dir ≠ d := fun h => hp (hc.1 p h)
    have hm : p ≠ ⟨.base, .main⟩ := fun h => hp (h ▸ hc.2.1)
    have hw : p ≠ ⟨.base, .wal⟩ := fun h => hp (h ▸ hc.2.2)
    simp only [handle]
    split_ifs
    · split
      · simp [Fs.fill, hd]
      · simp [Fs.rewrite, Fs.fill, hd, hm, hw]
    · split <;> simp [Fs.fill, hd]
    · rfl
  | assemble d =>
    have hd : p.dir ≠ d := fun h => hp (hc p h)
    simp only [handle]
    split_ifs
    · simp [Fs.fill, hd]
    · rfl

end Frame

/-- Every call of the program has its footprint in the region. -/
def Touches {α : Type} (R : Region) : FileM α → Prop
  | .done _ => True
  | .call c k => c.Within R ∧ ∀ a, Touches R (k a)

namespace Touches

variable {α β : Type} {R : Region}

@[simp]
theorem done (a : α) : Touches R (.done a : FileM α) := trivial

theorem issue {c : Call} (hc : c.Within R) : Touches R (Prog.issue c) := ⟨hc, fun _ => trivial⟩

theorem bind_of_returns {p : FileM α} {f : α → FileM β} {Q : α → Prop} (hp : Touches R p)
    (hQ : Prog.Returns Q p) (hf : ∀ a, Q a → Touches R (f a)) : Touches R (p >>= f) := by
  induction p with
  | done a => exact hf a hQ
  | call c k ih => exact ⟨hp.1, fun a => ih a (hp.2 a) (hQ a)⟩

theorem bind {p : FileM α} {f : α → FileM β} (hp : Touches R p) (hf : ∀ a, Touches R (f a)) :
    Touches R (p >>= f) :=
  hp.bind_of_returns (Prog.returns_true p) fun a _ => hf a

theorem mono {p : FileM α} {R' : Region} (hp : Touches R p) (hR : ∀ q, R q → R' q) :
    Touches R' p := by
  induction p with
  | done a => trivial
  | call c k ih =>
    refine ⟨?_, fun a => ih a (hp.2 a)⟩
    cases c <;> simp_all [Call.Within, Touches]

/-- The frame rule, for a program that starts after others with the same footprint. -/
theorem safe_from {F : Type} {empty : F} {ok : Call → Oracle F → Fs F → Prop} {I : Fs F → Prop}
    {p : FileM α} {s t : Fs F} (hp : Touches R p) (hI : ∀ u, SameOff R s u → I u)
    (ht : SameOff R s t) : Prog.Safe (handle empty) ok I p (fun _ u => SameOff R s u) t := by
  induction p generalizing t with
  | done a => exact ⟨hI _ ht, ht⟩
  | call c k ih =>
    exact ⟨hI _ ht, fun o _ => ih _ (hp.2 _) (ht.trans (handle_sameOff hp.1 o _))⟩

/-- **The frame rule.** -/
theorem safe {F : Type} {empty : F} {ok : Call → Oracle F → Fs F → Prop} {I : Fs F → Prop}
    {p : FileM α} {s : Fs F} (hp : Touches R p) (hI : ∀ t, SameOff R s t → I t) :
    Prog.Safe (handle empty) ok I p (fun _ t => SameOff R s t) s :=
  hp.safe_from hI (SameOff.refl R s)

end Touches

/-! ### The footprints of the functions of `FileManager` -/

namespace FileManager

variable {R : Region}

theorem touches_itemExists (site : Site) (i : Item) : Touches R (itemExists site i) :=
  Touches.bind (Touches.issue trivial) fun a => by cases a <;> exact Touches.done _

theorem touches_fileExists (i : Item) : Touches R (fileExists i) :=
  Touches.bind (touches_itemExists _ _) fun a => by cases a <;> exact Touches.done _

theorem touches_directoryExists (d : Dir) : Touches R (directoryExists d) :=
  Touches.bind (touches_itemExists _ _) fun a => by cases a <;> exact Touches.done _

theorem touches_createDirectory (d : Dir) : Touches R (createDirectory d) :=
  Touches.issue trivial

theorem touches_createDirectoryWithIntermediateDirectories (d : Dir) :
    Touches R (createDirectoryWithIntermediateDirectories d) := by
  induction d with
  | base | temporary =>
    refine Touches.bind (touches_directoryExists _) fun a => ?_
    rcases a with _ | _ | _
    · exact Touches.done _
    · exact touches_createDirectory _
    · exact Touches.done _
  | sub p n ih =>
    refine Touches.bind (touches_directoryExists _) fun a => ?_
    rcases a with _ | _ | _
    · exact Touches.done _
    · refine Touches.bind ih fun b => ?_
      cases b
      · exact Touches.done _
      · exact touches_createDirectory _
    · exact Touches.done _

theorem touches_removeEntries {removeSub : Dir → FileM Bool} {d : Dir}
    (hsub : ∀ n, Touches (below d) (removeSub (.sub d n))) (l : List Entry) :
    Touches (below d) (removeEntries removeSub d l) := by
  induction l with
  | nil => exact Touches.done _
  | cons x rest ih =>
    cases x with
    | file e =>
      refine Touches.bind (Touches.issue (Dir.within_self d)) fun b => ?_
      cases b
      · exact Touches.done _
      · exact ih
    | dir n =>
      refine Touches.bind (hsub n) fun b => ?_
      cases b
      · exact Touches.done _
      · exact ih

theorem below_sub {d : Dir} {n : DirName} {p : Path} (h : below (.sub d n) p) : below d p := by
  obtain ⟨dir, ext⟩ := p
  simp only [below] at h ⊢
  induction dir with
  | base => simp [Dir.Within] at h
  | temporary => simp [Dir.Within] at h
  | sub q m ih =>
    rcases h with h | h
    · obtain ⟨rfl, -⟩ := Dir.sub.inj h
      exact Dir.Within.sub (Dir.within_self _) m
    · exact Or.inr (ih h)

theorem touches_removeDirectory (fuel : ℕ) (d : Dir) :
    Touches (below d) (removeDirectory fuel d) := by
  induction fuel generalizing d with
  | zero => exact Touches.done _
  | succ fuel ih =>
    refine Touches.bind (Touches.issue trivial) fun a => ?_
    cases a with
    | error => exact Touches.done _
    | absent => exact Touches.done _
    | entries l =>
      have hsub := fun n => (ih (.sub d n)).mono fun _ => below_sub
      refine Touches.bind (touches_removeEntries hsub l) fun b => ?_
      cases b
      · exact Touches.done _
      · exact Touches.issue trivial

theorem touches_removeItem (fuel : ℕ) (i : Item) : Touches i.region (removeItem fuel i) := by
  refine Touches.bind (Touches.issue trivial) fun a => ?_
  cases a with
  | error => exact Touches.done _
  | absent => exact Touches.done _
  | directory =>
    cases i with
    | file p => exact Touches.done _
    | dir d => exact touches_removeDirectory fuel d
  | file =>
    cases i with
    | file p => exact Touches.issue rfl
    | dir d => exact Touches.done _

theorem touches_removeItems (fuel : ℕ) {l : List Item} (hl : ∀ i ∈ l, ∀ p, i.region p → R p) :
    Touches R (removeItems fuel l) := by
  induction l with
  | nil => exact Touches.done _
  | cons i rest ih =>
    have hi := (touches_removeItem fuel i).mono (hl i List.mem_cons_self)
    refine Touches.bind hi fun b => ?_
    cases b
    · exact Touches.done _
    · exact ih fun j hj => hl j (List.mem_cons_of_mem _ hj)

theorem touches_recoverItems (fuel : ℕ) {l : List Item} (hl : ∀ i ∈ l, ∀ p, i.region p → R p) :
    Touches R (recoverItems fuel l) := by
  induction l with
  | nil => exact Touches.done _
  | cons i rest ih =>
    have hi := (touches_removeItem fuel i).mono (hl i List.mem_cons_self)
    exact Touches.bind hi fun _ => ih fun j hj => hl j (List.mem_cons_of_mem _ hj)

theorem touches_linkEntries {linkSub : Dir → Dir → FileM Bool} {src dst : Dir}
    (hsub : ∀ n, Touches (below dst) (linkSub (.sub src n) (.sub dst n))) (l : List Entry) :
    Touches (below dst) (linkEntries linkSub src dst l) := by
  induction l with
  | nil => exact Touches.done _
  | cons x rest ih =>
    cases x with
    | file e =>
      refine Touches.bind (Touches.issue (Dir.within_self dst)) fun b => ?_
      cases b
      · exact Touches.done _
      · exact ih
    | dir n =>
      refine Touches.bind (hsub n) fun b => ?_
      cases b
      · exact Touches.done _
      · exact ih

theorem touches_createDirectoryHardLink (fuel : ℕ) (src dst : Dir) :
    Touches (below dst) (createDirectoryHardLink fuel src dst) := by
  induction fuel generalizing src dst with
  | zero => exact Touches.done _
  | succ fuel ih =>
    have hundo : Touches (below dst)
        (removeItem fuel (.dir dst) >>= fun _ => (pure false : FileM Bool)) :=
      Touches.bind (touches_removeItem fuel (.dir dst)) fun _ => Touches.done _
    refine Touches.bind (touches_createDirectory dst) fun b => ?_
    cases b
    · exact Touches.done _
    · refine Touches.bind (Touches.issue trivial) fun a => ?_
      cases a with
      | error => exact hundo
      | absent => exact Touches.done _
      | entries l =>
        have hsub := fun n => (ih (.sub src n) (.sub dst n)).mono fun _ => below_sub
        refine Touches.bind (touches_linkEntries hsub l) fun b => ?_
        cases b
        · exact hundo
        · exact Touches.done _

theorem touches_moveOne (v : MoveVariant) (fuel : ℕ) {src dst : Item}
    (hR : ∀ p, src.region p ∨ dst.region p → R p) : Touches R (moveOne v fuel src dst) := by
  cases src <;> cases dst <;> cases v
  case file.file.hardLink p q => exact Touches.issue (hR q (Or.inr rfl))
  case file.file.rename p q => exact Touches.issue ⟨hR p (Or.inl rfl), hR q (Or.inr rfl)⟩
  case dir.dir.hardLink d e =>
    exact (touches_createDirectoryHardLink fuel d e).mono fun p hp => hR p (Or.inr hp)
  case dir.dir.rename d e => exact Touches.issue hR
  all_goals exact Touches.done _

theorem touches_moveLoop (v : MoveVariant) (fuel : ℕ) {l : List (Item × Item)}
    (hR : ∀ x ∈ l, ∀ p, x.1.region p ∨ x.2.region p → R p) (recovers : List Item) :
    Touches R (moveLoop v fuel l recovers) := by
  induction l generalizing recovers with
  | nil => exact Touches.done _
  | cons x rest ih =>
    have hx := hR x List.mem_cons_self
    have hrest := ih fun y hy => hR y (List.mem_cons_of_mem _ hy)
    refine Touches.bind (touches_itemExists _ _) fun a => ?_
    rcases a with _ | ⟨_ | _, isDirectory⟩
    · exact Touches.done _
    · exact hrest recovers
    · refine Touches.bind ((touches_removeItem fuel x.2).mono fun p hp => hx p (Or.inr hp))
        fun b => ?_
      cases b
      · exact Touches.done _
      · refine Touches.bind (touches_moveOne v fuel hx) fun b => ?_
        cases b
        · exact Touches.done _
        · exact hrest _

/-- Only destinations get on the list of items to recover. -/
theorem returns_moveLoop (v : MoveVariant) (fuel : ℕ) {l : List (Item × Item)} {P : Item → Prop}
    (hl : ∀ x ∈ l, P x.2) {recovers : List Item} (hrec : ∀ i ∈ recovers, P i) :
    Prog.Returns (fun r => ∀ i ∈ r.2, P i) (moveLoop v fuel l recovers) := by
  induction l generalizing recovers with
  | nil => exact hrec
  | cons x rest ih =>
    have hrest := fun y hy => hl y (List.mem_cons_of_mem x hy)
    refine Prog.Returns.bind (Prog.returns_true _) fun a _ => ?_
    rcases a with _ | ⟨_ | _, isDirectory⟩
    · exact hrec
    · exact ih hrest hrec
    · refine Prog.Returns.bind (Prog.returns_true _) fun b _ => ?_
      cases b
      · exact hrec
      · refine Prog.Returns.bind (Prog.returns_true _) fun b _ => ?_
        cases b
        · exact hrec
        · refine ih hrest fun i hi => ?_
          rcases List.mem_append.mp hi with hi | hi
          · exact hrec i hi
          · exact List.mem_singleton.mp hi ▸ hl x List.mem_cons_self

theorem touches_movePairedItems (v : MoveVariant) (fuel : ℕ) {l : List (Item × Item)}
    (hR : ∀ x ∈ l, ∀ p, x.1.region p ∨ x.2.region p → R p) :
    Touches R (movePairedItems v fuel l) := by
  refine Touches.bind_of_returns (touches_moveLoop v fuel hR [])
    (returns_moveLoop v fuel (P := fun i => ∀ p, i.region p → R p)
      (fun x hx p hp => hR x hx p (Or.inr hp)) (by simp)) fun r hr => ?_
  obtain ⟨_ | _, recovers⟩ := r
  · exact Touches.bind (touches_recoverItems fuel hr) fun _ => Touches.done _
  · refine touches_removeItems fuel fun i hi => ?_
    obtain ⟨x, hx, rfl⟩ := List.mem_map.mp hi
    exact fun p hp => hR x hx p (Or.inl hp)

theorem touches_moveItems (v : MoveVariant) (fuel : ℕ) {paths : List Item} {d : Dir}
    (hR : ∀ i ∈ paths, ∀ p, i.region p ∨ (newPath d i).region p → R p) :
    Touches R (moveItems v fuel paths d) := by
  refine Touches.bind (touches_createDirectoryWithIntermediateDirectories d) fun b => ?_
  cases b
  · exact Touches.done _
  · refine touches_movePairedItems v fuel fun x hx => ?_
    obtain ⟨i, hi, rfl⟩ := List.mem_map.mp hx
    exact hR i hi

end FileManager

end Wcdb
