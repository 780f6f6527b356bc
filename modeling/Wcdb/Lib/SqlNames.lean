import Wcdb.Lib.SqlText

/-!
# Names in SQL texts

The parts of SQLite's grammar that read a name, a list of names, a keyword or a mark.

A text that is printed with names in it may be read in another way than it was meant. `At N z` says
that `z` is what was to be read next, `Beyond N z` that reading has gone past its start. Once beyond
it stays beyond, as long as the names that are read are as long as the names that were printed:
`name_upto` is one name of this argument and `names_upto` a list of names.
-/

namespace SqlText

/-! ### Grammar -/

/-- The keywords that are no names: those without a fallback to `ID`, apart from `INDEXED`,
`WINDOW`, `OVER`, `FILTER` and the words of a join. -/
def reserved : List Text :=
  ["ADD", "ALL", "ALTER", "AND", "AS", "AUTOINCREMENT", "BETWEEN", "CASE", "CHECK", "COLLATE",
    "COMMIT", "CONSTRAINT", "CREATE", "DEFAULT", "DEFERRABLE", "DELETE", "DISTINCT", "DROP", "ELSE",
    "ESCAPE", "EXCEPT", "EXISTS", "FOREIGN", "FROM", "GROUP", "HAVING", "IN", "INDEX", "INSERT",
    "INTERSECT", "INTO", "IS", "ISNULL", "JOIN", "LIMIT", "NOT", "NOTHING", "NOTNULL", "NULL", "ON",
    "OR", "ORDER", "PRIMARY", "REFERENCES", "SELECT", "SET", "TABLE", "THEN", "TO", "TRANSACTION",
    "UNION", "UNIQUE", "UPDATE", "USING", "VALUES", "WHEN", "WHERE"].map text

/-- The keywords that are names, but start something else where an expression may stand. -/
def operands : List Text :=
  ["CAST", "RAISE", "CURRENT_DATE", "CURRENT_TIME", "CURRENT_TIMESTAMP"].map text

def isReserved (w : Text) : Bool := reserved.any (same w)

def isOperand (w : Text) : Bool := operands.any (same w)

/-- What follows a keyword. -/
def keyword (k z : Text) : Option Text :=
  match next z with
  | some (.word w, rest) => if same w k then some rest else none
  | _ => none

/-- What follows a mark. -/
def mark (m z : Text) : Option Text :=
  match next z with
  | some (.mark c, rest) => if c = m then some rest else none
  | _ => none

/-- `nm`. -/
def name (z : Text) : Option (Text × Text) :=
  match next z with
  | some (.word w, rest) => if isReserved w then none else some (w, rest)
  | some (.identifier v, rest) => some (v, rest)
  | some (.string v, rest) => some (v, rest)
  | _ => none

/-- An `expr` that is one name. -/
def operand (z : Text) : Option (Text × Text) :=
  match next z with
  | some (.word w, rest) => if isReserved w || isOperand w then none else some (w, rest)
  | some (.identifier v, rest) => some (v, rest)
  | _ => none

/-- A parameter; `none` when it has no number. -/
def parameter (z : Text) : Option (Option ℕ × Text) :=
  match next z with
  | some (.variable n, rest) => some (n, rest)
  | _ => none

/-- Items with commas between them, at most `n`. -/
def itemsWithin {α : Type} (item : Text → Option (α × Text)) : ℕ → Text → Option (List α × Text)
  | 0, _ => none
  | n + 1, z => do
    let (a, z) ← item z
    match mark [44] z with
    | none => some ([a], z)
    | some z => do
      let (as, z) ← itemsWithin item n z
      some (a :: as, z)

/-- Items with commas between them. -/
def items {α : Type} (item : Text → Option (α × Text)) (z : Text) : Option (List α × Text) :=
  itemsWithin item z.length z

/-- The end of a statement. -/
def ended (z : Text) : Bool :=
  match skip z with
  | [] => true
  | b :: _ => b == 59

/-- A list as it is printed. -/
def joined : List Text → Text
  | [] => []
  | [w] => w
  | w :: v :: ws => w ++ 44 :: 32 :: joined (v :: ws)

/-! ### Reading what was printed -/

/-- What was to be read next, perhaps after a blank. -/
def At (N z : Text) : Prop := z = N ∨ z = 32 :: N

section Printed

variable {w v z : Text} {c : UInt8}

theorem mark_of_next {m rest : Text} (h : next z = some (.mark m, rest)) :
    mark m z = some rest := by
  rw [mark, h]
  exact if_pos rfl

theorem keyword_word (k : Text) (hw : isWord w = true) (hc : inWord c = false) (h39 : c ≠ 39)
    (z : Text) : keyword k (w ++ c :: z) = if same w k then some (c :: z) else none := by
  rw [keyword, next_word hw hc h39]

theorem keyword_blank_word (k : Text) (hw : isWord w = true) (hc : inWord c = false)
    (h39 : c ≠ 39) (z : Text) :
    keyword k (32 :: (w ++ c :: z)) = if same w k then some (c :: z) else none := by
  rw [keyword, next_blank_word hw hc h39]

theorem mark_eq {b : UInt8} (hb : b ∈ [40, 41, 44, 59]) (z : Text) : mark [b] (b :: z) = some z :=
  mark_of_next (next_mark hb z)

theorem name_word (hw : isWord w = true) (hc : inWord c = false) (h39 : c ≠ 39) (z : Text) :
    name (w ++ c :: z) = (if isReserved w then none else some w).map (·, c :: z) ∧
      name (32 :: (w ++ c :: z)) = (if isReserved w then none else some w).map (·, c :: z) := by
  simp only [name, next_word hw hc h39, next_blank_word hw hc h39]
  cases isReserved w <;> simp

theorem operand_word (hw : isWord w = true) (hc : inWord c = false) (h39 : c ≠ 39) (z : Text) :
    operand (w ++ c :: z) =
        (if isReserved w || isOperand w then none else some w).map (·, c :: z) ∧
      operand (32 :: (w ++ c :: z)) =
        (if isReserved w || isOperand w then none else some w).map (·, c :: z) := by
  simp only [operand, next_word hw hc h39, next_blank_word hw hc h39]
  cases isReserved w || isOperand w <;> simp

theorem isDigit_of_not_inWord (h : inWord c = false) : isDigit c = false := by
  simp only [inWord, Bool.or_eq_false_iff] at h
  exact h.1.2

theorem parameter_decimal {n : ℕ} (hn : n ≠ 0) (hc : inWord c = false) (z : Text) :
    parameter (63 :: decimal n ++ c :: z) = (some (some n)).map (·, c :: z) ∧
      parameter (32 :: (63 :: decimal n ++ c :: z)) = (some (some n)).map (·, c :: z) := by
  have h := next_variable hn (isDigit_of_not_inWord hc) z
  rw [List.cons_append, parameter, parameter, next_blank _ rfl, h]
  exact ⟨rfl, rfl⟩

/-- A list is read item by item as it was printed. -/
theorem itemsWithin_joined {α β : Type} {item : Text → Option (α × Text)} {print : β → Text}
    {value : β → Option α} {bs : List β}
    (hitem : ∀ b ∈ bs, ∀ (c : UInt8) (z : Text), inWord c = false → c ≠ 39 →
      item (print b ++ c :: z) = (value b).map (·, c :: z) ∧
      item (32 :: (print b ++ c :: z)) = (value b).map (·, c :: z))
    (hne : bs ≠ []) (hc : inWord c = false) (h39 : c ≠ 39) (hmark : mark [44] (c :: z) = none)
    {n : ℕ} (hn : bs.length ≤ n) {start : Text}
    (hstart : At (joined (bs.map print) ++ c :: z) start) :
    itemsWithin item n start = (bs.mapM value).map (·, c :: z) := by
  induction bs generalizing n start with
  | nil => exact absurd rfl hne
  | cons b bs ih =>
    obtain ⟨n, rfl⟩ : ∃ k, n = k + 1 := ⟨n - 1, by rw [List.length_cons] at hn; omega⟩
    have hread : ∀ {c : UInt8} {z : Text}, inWord c = false → c ≠ 39 →
        At (print b ++ c :: z) start → item start = (value b).map (·, c :: z) := by
      rintro c z hc h39 (rfl | rfl)
      · exact (hitem b List.mem_cons_self c z hc h39).1
      · exact (hitem b List.mem_cons_self c z hc h39).2
    rw [itemsWithin]
    cases bs with
    | nil =>
      rw [hread hc h39 hstart]
      cases hvalue : value b <;> simp [hvalue, hmark]
    | cons d bs =>
      have hrest := ih (fun b' hb' => hitem b' (List.mem_cons_of_mem _ hb')) (by simp)
        (n := n) (by simpa using hn) (.inr rfl)
      rw [hread (c := 44) (z := 32 :: (joined ((d :: bs).map print) ++ c :: z)) rfl (by decide)
        (by simpa [joined, At] using hstart)]
      cases hvalue : value b with
      | none => simp [hvalue]
      | some a =>
        simp only [Option.map_some, Option.bind_eq_bind, Option.bind_some,
          mark_eq (b := 44) (by decide), hrest, List.mapM_cons (a := b), hvalue]
        cases hvalues : (d :: bs).mapM value <;> simp

theorem length_le_joined (ws : List Text) : ws.length ≤ (joined ws).length + 1 := by
  fun_induction joined ws with
  | case1 => simp
  | case2 => simp
  | case3 w v ws ih =>
    simp only [List.length_cons, List.length_append] at ih ⊢
    omega

theorem items_joined {α β : Type} (item : Text → Option (α × Text)) (print : β → Text)
    (value : β → Option α) (bs : List β)
    (hitem : ∀ b ∈ bs, ∀ (c : UInt8) (z : Text), inWord c = false → c ≠ 39 →
      item (print b ++ c :: z) = (value b).map (·, c :: z) ∧
      item (32 :: (print b ++ c :: z)) = (value b).map (·, c :: z))
    (hne : bs ≠ []) (hc : inWord c = false) (h39 : c ≠ 39) (hmark : mark [44] (c :: z) = none)
    {start : Text} (hstart : At (joined (bs.map print) ++ c :: z) start) :
    items item start = (bs.mapM value).map (·, c :: z) := by
  refine itemsWithin_joined hitem hne hc h39 hmark ?_ hstart
  have hle := length_le_joined (bs.map print)
  rw [List.length_map] at hle
  rcases hstart with rfl | rfl <;> simp only [List.length_cons, List.length_append] <;> omega

end Printed

/-! ### Reading beyond what was printed -/

/-- Reading has gone past the start of `N`. -/
def Beyond (N z : Text) : Prop := z <:+ N ∧ z.length < N.length

theorem Beyond.tail {c : UInt8} {N z : Text} (h : Beyond (c :: N) z) : z <:+ N := by
  rcases List.suffix_cons_iff.mp h.1 with rfl | hz
  · exact absurd h.2 (lt_irrefl _)
  · exact hz

theorem beyond_of_suffix {Z N z : Text} (hN : N <:+ Z) (hz : z <:+ Z) (h : z.length < N.length) :
    Beyond N z := ⟨List.suffix_of_suffix_length_le hz hN h.le, h⟩

theorem next_upto {N z rest : Text} {t : Token} (hz : At N z ∨ Beyond N z)
    (h : next z = some (t, rest)) :
    ∃ q x, N = q ++ (x ++ rest) ∧ Spells t x ∧ (q = [] → At N z) := by
  rcases hz with (rfl | rfl) | ⟨⟨p, rfl⟩, hlt⟩
  · obtain ⟨s, x, hs, hx⟩ := next_spelled h
    exact ⟨s, x, hs, hx, fun _ => .inl rfl⟩
  · obtain ⟨s, x, hs, hx⟩ := next_blank_spelled h
    exact ⟨s, x, hs, hx, fun _ => .inr rfl⟩
  · obtain ⟨s, x, hs, hx⟩ := next_spelled h
    refine ⟨p ++ s, x, by rw [List.append_assoc, ← hs], hx, fun hnil => ?_⟩
    rw [(List.append_eq_nil_iff.mp hnil).1] at hlt
    exact absurd hlt (lt_irrefl _)

/-- A word as long as the printed one takes the mark behind it along, or starts after that, unless
it is the printed one. -/
theorem word_upto {w v M q rest : Text} {c : UInt8} (hc : inWord c = false)
    (hv : isWord v = true) (hlength : v.length = w.length)
    (h : w ++ c :: M = q ++ (v ++ rest)) :
    (q = [] ∧ v = w ∧ rest = c :: M) ∨ Beyond M rest := by
  have hsuffix : rest <:+ w ++ c :: M := ⟨q ++ v, by rw [h, List.append_assoc]⟩
  have hM : M <:+ w ++ c :: M := ⟨w ++ [c], by simp⟩
  have hlen := congrArg List.length h
  simp only [List.length_append, List.length_cons] at hlen
  have hpos := List.length_pos_iff.mpr (isWord_ne_nil hv)
  rcases eq_or_ne q [] with rfl | hq
  · rw [List.nil_append] at h
    obtain ⟨rfl, hrest⟩ := List.append_inj h hlength.symm
    exact .inl ⟨rfl, rfl, hrest.symm⟩
  · have hq := List.length_pos_iff.mpr hq
    refine .inr (beyond_of_suffix hM hsuffix ?_)
    by_contra hle
    -- the word starts within the printed one and ends behind it, so the mark is in it
    have hget : (w ++ c :: M)[w.length]? = some c := by simp
    rw [h, List.getElem?_append_right (by omega), List.getElem?_append_left (by omega)] at hget
    have hmem := inWord_of_mem hv (List.mem_of_getElem? hget)
    rw [hc] at hmem
    cases hmem

/-- A name as long as the printed one is the printed one, or reading goes beyond it. -/
theorem name_upto {w v M z rest : Text} {c : UInt8} (hc : inWord c = false)
    (hz : At (w ++ c :: M) z ∨ Beyond (w ++ c :: M) z) (h : name z = some (v, rest))
    (hlength : v.length = w.length) :
    (At (w ++ c :: M) z ∧ isWord w = true ∧ isReserved w = false ∧ v = w ∧ rest = c :: M) ∨
      Beyond M rest := by
  -- a quoted name takes two bytes more, and only one is between the names
  have hquoted : ∀ {t : Token}, next z = some (t, rest) →
      (∀ x, Spells t x → v.length + 2 ≤ x.length) → Beyond M rest := by
    intro t ht hspells
    obtain ⟨q, x, hqx, hx, -⟩ := next_upto hz ht
    have hx := hspells x hx
    have hlen := congrArg List.length hqx
    simp only [List.length_append, List.length_cons] at hlen
    exact beyond_of_suffix (Z := w ++ c :: M) ⟨w ++ [c], by simp⟩
      ⟨q ++ x, by rw [hqx, List.append_assoc]⟩ (by omega)
  rw [name] at h
  split at h
  · next u rest' ht =>
    split_ifs at h with hreserved
    cases h
    obtain ⟨q, x, hqx, ⟨rfl, hword⟩, hat⟩ := next_upto hz ht
    rcases word_upto hc hword hlength hqx with ⟨hq, rfl, hrest⟩ | hbeyond
    · exact .inl ⟨hat hq, hword, by simpa using hreserved, rfl, hrest⟩
    · exact .inr hbeyond
  · next u rest' ht =>
    cases h
    exact .inr (hquoted ht fun x hx => hx)
  · next u rest' ht =>
    cases h
    exact .inr (hquoted ht fun x hx => by simp only [Spells] at hx; omega)
  · cases h

theorem mark_spelled {m z rest : Text} (h : mark m z = some rest) :
    ∃ s, z = s ++ (m ++ rest) := by
  rw [mark] at h
  split at h
  · next c rest' ht =>
    split_ifs at h with hcm
    cases h
    obtain ⟨s, x, hs, hx⟩ := next_spelled ht
    exact ⟨s, by rw [hs, hx, hcm]⟩
  · cases h

theorem Beyond.not_at {N z : Text} (h : Beyond N z) : ¬At N z := by
  have hlt := h.2
  rintro (rfl | rfl)
  · exact absurd hlt (lt_irrefl _)
  · rw [List.length_cons] at hlt
    omega

theorem Beyond.suffix {N z rest : Text} (h : Beyond N z) (hrest : rest <:+ z) : Beyond N rest :=
  ⟨hrest.trans h.1, hrest.length_le.trans_lt h.2⟩

theorem name_suffix {v z rest : Text} (h : name z = some (v, rest)) : rest <:+ z := by
  have hsuffix : ∀ {t : Token}, next z = some (t, rest) → rest <:+ z := fun ht => by
    obtain ⟨s, x, hs, -⟩ := next_spelled ht
    exact ⟨s ++ x, by rw [hs, List.append_assoc]⟩
  rw [name] at h
  split at h
  · next u rest' ht =>
    split_ifs at h
    cases h
    exact hsuffix ht
  · next u rest' ht =>
    cases h
    exact hsuffix ht
  · next u rest' ht =>
    cases h
    exact hsuffix ht
  · cases h

theorem mark_suffix {m z rest : Text} (h : mark m z = some rest) : rest <:+ z := by
  obtain ⟨s, rfl⟩ := mark_spelled h
  exact ⟨s ++ m, List.append_assoc _ _ _⟩

/-- A mark that is not in the part `lead` is read beyond it. -/
theorem beyond_of_mark {c : UInt8} {lead N z rest : Text} (hc : c ∉ lead) (hz : z <:+ lead ++ N)
    (h : mark [c] z = some rest) : Beyond N rest := by
  obtain ⟨s, rfl⟩ := mark_spelled h
  obtain ⟨p, hp⟩ := hz
  rw [← List.append_assoc] at hp
  rcases List.append_eq_append_iff.mp hp with ⟨a, hlead, ha⟩ | ⟨a, -, ha⟩
  · cases a with
    | nil =>
      rw [List.nil_append] at ha
      rw [← ha]
      exact ⟨⟨[c], rfl⟩, by simp⟩
    | cons d a =>
      obtain ⟨rfl, -⟩ := List.cons.inj ha
      exact absurd (hlead ▸ by simp) hc
  · exact ⟨⟨a ++ [c], by rw [ha, List.append_assoc]⟩, by rw [ha]; simp; omega⟩

/-- A mark leads beyond what follows the blank after the mark that was printed. -/
theorem Beyond.mark {b c : UInt8} {N z rest : Text} (h : Beyond (b :: N) z)
    (hmark : mark [c] z = some rest) : Beyond N rest := by
  obtain ⟨s, rfl⟩ := mark_spelled hmark
  have htail := h.tail
  have hle := htail.length_le
  simp only [List.length_append, List.length_cons, List.length_nil] at hle
  have hsuffix : rest <:+ s ++ ([c] ++ rest) := ⟨s ++ [c], List.append_assoc _ _ _⟩
  exact ⟨hsuffix.trans htail, by omega⟩

theorem itemsWithin_ne_nil {α : Type} {item : Text → Option (α × Text)} {n : ℕ} {z rest : Text}
    {as : List α} (h : itemsWithin item n z = some (as, rest)) : as ≠ [] := by
  cases n with
  | zero => cases h
  | succ n =>
    simp only [itemsWithin, Option.bind_eq_bind, Option.bind_eq_some_iff] at h
    obtain ⟨⟨a, z'⟩, -, h⟩ := h
    split at h
    · cases h
      simp
    · simp only [Option.bind_eq_some_iff] at h
      obtain ⟨⟨as', z''⟩, -, h⟩ := h
      cases h
      simp

/-- Names as long as the printed ones are the printed ones, or reading goes beyond them. -/
theorem names_upto {ws vs M z rest : List _} {c : UInt8} (hc : inWord c = false) {n : ℕ}
    (hz : At (joined ws ++ c :: M) z ∨ Beyond (joined ws ++ c :: M) z)
    (h : itemsWithin name n z = some (vs, rest))
    (hlength : List.Forall₂ (fun v w : Text => v.length = w.length) vs ws) :
    (At (joined ws ++ c :: M) z ∧ (∀ w ∈ ws, isWord w = true ∧ isReserved w = false) ∧
      rest = c :: M) ∨ Beyond M rest := by
  induction hlength generalizing n z with
  | nil => exact absurd rfl (itemsWithin_ne_nil h)
  | @cons v w vs ws hvw hlength ih =>
    cases n with
    | zero => cases h
    | succ n =>
    simp only [itemsWithin, Option.bind_eq_bind, Option.bind_eq_some_iff] at h
    obtain ⟨⟨a, z'⟩, ha, h⟩ := h
    cases hmark : mark [44] z' with
    | none =>
      simp only [hmark, Option.some.injEq, Prod.mk.injEq, List.cons.injEq] at h
      obtain ⟨⟨rfl, rfl⟩, rfl⟩ := h
      cases hlength
      rcases name_upto hc hz ha hvw with ⟨hat, hword, hreserved, -, hrest⟩ | hbeyond
      · exact .inl ⟨hat, by simpa using ⟨hword, hreserved⟩, hrest⟩
      · exact .inr hbeyond
    | some z'' =>
      simp only [hmark, Option.bind_eq_some_iff] at h
      obtain ⟨⟨as, z₃⟩, has, h⟩ := h
      cases h
      obtain ⟨w', ws, rfl⟩ : ∃ w' ws', ws = w' :: ws' := by
        cases hlength with
        | nil => exact absurd rfl (itemsWithin_ne_nil has)
        | cons _ _ => exact ⟨_, _, rfl⟩
      have hjoined : joined (w :: w' :: ws) ++ c :: M =
          w ++ 44 :: 32 :: (joined (w' :: ws) ++ c :: M) := by simp [joined]
      rw [hjoined] at hz
      rw [hjoined]
      rcases name_upto rfl hz ha hvw with ⟨hat, hword, hreserved, -, rfl⟩ | hbeyond
      · rw [mark_eq (by decide)] at hmark
        cases hmark
        refine (ih (.inl (.inr rfl)) has).imp_left fun h => ⟨hat, ?_, h.2.2⟩
        exact List.forall_mem_cons.mpr ⟨⟨hword, hreserved⟩, h.2.1⟩
      · have hnext := hbeyond.mark hmark
        rcases ih (.inr hnext) has with h | h
        · exact absurd h.1 hnext.not_at
        · exact .inr h

end SqlText
