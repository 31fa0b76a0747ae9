import SparseProgram.Proofs.Json.Number
import SparseProgram.Proofs.Json.Text

/-!
# Reading printed values

Printed text reads back to the value it was printed from, if NaN, which has no text of its own,
stands nowhere in it.
-/

namespace SparseProgram

namespace Json

/-- No number in a value is NaN. -/
inductive Printable : Json → Prop where
  | null : Printable null
  | bool (value : Bool) : Printable (bool value)
  | int (value : Int) : Printable (int value)
  | real {value : Binary64} (h : value ≠ .nan) : Printable (real value)
  | str (text : LiteralText) : Printable (str text)
  | arr {items : List Json} (h : ∀ item ∈ items, Printable item) : Printable (arr items)
  | obj {members : List (LiteralText × Json)} (h : ∀ member ∈ members, Printable member.2) :
      Printable (obj members)

variable {rest : List Char} {fuel : Nat}

/-! ## First characters -/

def BeginsNumber (cs : List Char) : Prop :=
  ∃ c rest, cs = c :: rest ∧ (c = '-' ∨ c.isDigit = true)

theorem beginsNumber_signed (negative : Bool) (n : Nat) (rest : List Char) :
    BeginsNumber ((if negative then ['-'] else []) ++ (wholeDigits n ++ rest)) := by
  cases negative with
  | true => exact ⟨'-', _, rfl, .inl rfl⟩
  | false =>
      obtain ⟨c, digits, happend, hdigit⟩ := head?_wholeDigits_append n rest
      exact ⟨c, digits, happend, .inr hdigit⟩

theorem beginsNumber_printInt (n : Int) (rest : List Char) : BeginsNumber (printInt n ++ rest) := by
  have h := beginsNumber_signed (decide (n < 0)) n.natAbs rest
  simpa [printInt] using h

theorem beginsNumber_printReal {x : Binary64} (hx : x ≠ .nan) (rest : List Char) :
    BeginsNumber (printReal x ++ rest) := by
  match x with
  | .nan => exact absurd rfl hx
  | .infinite negative => cases negative <;> exact ⟨_, _, rfl, by decide⟩
  | .finite negative m =>
      have h := beginsNumber_signed (withPoint (Binary64.shortest negative m)).negative
        ((withPoint (Binary64.shortest negative m)).digits
          / 10 ^ (withPoint (Binary64.shortest negative m)).places)
        ((withPoint (Binary64.shortest negative m)).fraction ++ rest)
      simpa [printReal, Decimal.text] using h

theorem readValue_number {cs : List Char} (h : BeginsNumber cs) :
    readValue (fuel + 1) cs = readNumber cs := by
  obtain ⟨c, rest, rfl, hc⟩ := h
  -- What is left is that none of the other characters begins a number.
  rw [readValue] <;> (rintro rest ⟨⟩; exact absurd hc (by decide))

theorem isBlank_of_beginsNumber {c : Char} {cs : List Char} (h : BeginsNumber (c :: cs)) :
    isBlank c = false ∧ c ≠ ']' := by
  obtain ⟨_, _, ⟨⟩, rfl | hdigit⟩ := h
  · decide
  · constructor
    · rw [← Bool.not_eq_true]
      intro hblank
      simp only [isBlank, Bool.or_eq_true, decide_eq_true_eq] at hblank
      obtain ((rfl | rfl) | rfl) | rfl := hblank <;> cases hdigit
    · rintro rfl
      cases hdigit

/-- A value does not begin with a blank, nor as the end of an array. -/
theorem print_head {j : Json} (h : j.Printable) :
    ∃ c cs, j.print = c :: cs ∧ isBlank c = false ∧ c ≠ ']' := by
  cases h with
  | null => exact ⟨_, _, rfl, by decide⟩
  | bool value => cases value <;> exact ⟨_, _, rfl, by decide⟩
  | int n =>
      obtain ⟨c, cs, hcs, hc⟩ := beginsNumber_printInt n []
      rw [List.append_nil] at hcs
      exact ⟨c, cs, hcs, isBlank_of_beginsNumber ⟨c, cs, rfl, hc⟩⟩
  | real hx =>
      obtain ⟨c, cs, hcs, hc⟩ := beginsNumber_printReal hx []
      rw [List.append_nil] at hcs
      exact ⟨c, cs, hcs, isBlank_of_beginsNumber ⟨c, cs, rfl, hc⟩⟩
  | str text => cases text <;> exact ⟨_, _, rfl, by decide⟩
  | arr h => exact ⟨_, _, rfl, by decide⟩
  | obj h => exact ⟨_, _, rfl, by decide⟩

theorem skipBlanks_print {j : Json} (h : j.Printable) (rest : List Char) :
    skipBlanks (j.print ++ rest) = j.print ++ rest := by
  obtain ⟨c, cs, hcs, hblank, -⟩ := print_head h
  rw [hcs, List.cons_append, skipBlanks, List.dropWhile_cons_of_neg (by simp [hblank])]

theorem skipBlanks_cons {c : Char} (hc : isBlank c = false) (cs : List Char) :
    skipBlanks (c :: cs) = c :: cs := by
  rw [skipBlanks, List.dropWhile_cons_of_neg (by simp [hc])]

/-! ## Steps of the readers -/

section Steps

variable {cs next : List Char} {item value : Json} {items : List Json} {key : LiteralText}
  {members : List (LiteralText × Json)}

theorem readItems_last (hitem : readValue fuel cs = some (item, ']' :: rest)) :
    readItems (fuel + 1) cs = some ([item], rest) := by
  simp [readItems, hitem, skipBlanks_cons (show isBlank ']' = false by decide)]

theorem readItems_more (hitem : readValue fuel cs = some (item, ',' :: next))
    (hnext : skipBlanks next = next) (hitems : readItems fuel next = some (items, rest)) :
    readItems (fuel + 1) cs = some (item :: items, rest) := by
  simp [readItems, hitem, skipBlanks_cons (show isBlank ',' = false by decide), hnext, hitems]

theorem readMembers_last (hkey : readText cs = some (key, ':' :: next))
    (hnext : skipBlanks next = next) (hvalue : readValue fuel next = some (value, '\x7d' :: rest)) :
    readMembers (fuel + 1) ('"' :: cs) = some ([(key, value)], rest) := by
  simp [readMembers, hkey, skipBlanks_cons (show isBlank ':' = false by decide), hnext, hvalue,
    skipBlanks_cons (show isBlank '\x7d' = false by decide)]

theorem readMembers_more {after : List Char} (hkey : readText cs = some (key, ':' :: next))
    (hnext : skipBlanks next = next) (hvalue : readValue fuel next = some (value, ',' :: after))
    (hafter : skipBlanks after = after) (hmembers : readMembers fuel after = some (members, rest)) :
    readMembers (fuel + 1) ('"' :: cs) = some ((key, value) :: members, rest) := by
  simp [readMembers, hkey, skipBlanks_cons (show isBlank ':' = false by decide), hnext, hvalue,
    skipBlanks_cons (show isBlank ',' = false by decide), hafter, hmembers]

theorem readValue_items {c : Char} (hc : isBlank c = false ∧ c ≠ ']')
    (hitems : readItems fuel (c :: cs) = some (items, rest)) :
    readValue (fuel + 1) ('[' :: c :: cs) = some (arr items, rest) := by
  simp [readValue, skipBlanks_cons hc.1, hc.2, hitems]

theorem readValue_members (hmembers : readMembers fuel ('"' :: cs) = some (members, rest)) :
    readValue (fuel + 1) ('\x7b' :: '"' :: cs) = some (obj members, rest) := by
  simp [readValue, skipBlanks_cons (show isBlank '"' = false by decide), hmembers]

end Steps

/-! ## Values -/

theorem printItems_head {items : List Json} (hne : items ≠ [])
    (hitems : ∀ item ∈ items, Printable item) :
    ∃ c cs, printItems items = c :: cs ∧ isBlank c = false ∧ c ≠ ']' := by
  match items with
  | [] => exact absurd rfl hne
  | [item] =>
      obtain ⟨c, cs, hcs, hc⟩ := print_head (hitems item List.mem_cons_self)
      exact ⟨c, _, by rw [printItems, hcs]; rfl, hc⟩
  | item :: next :: others =>
      obtain ⟨c, cs, hcs, hc⟩ := print_head (hitems item List.mem_cons_self)
      exact ⟨c, _, by rw [printItems, hcs]; rfl, hc⟩

theorem printMembers_head {members : List (LiteralText × Json)} (hne : members ≠ []) :
    ∃ cs, printMembers members = '"' :: cs := by
  match members with
  | [] => exact absurd rfl hne
  | [(key, value)] =>
      obtain ⟨body, hbody, -⟩ := readText_printLiteralText key (':' :: (value.print ++ ['\x7d']))
      exact ⟨body, by simpa [printMembers] using hbody⟩
  | (key, value) :: next :: others =>
      obtain ⟨body, hbody, -⟩ := readText_printLiteralText key
        (':' :: (value.print ++ ',' :: printMembers (next :: others)))
      exact ⟨body, by simpa [printMembers] using hbody⟩

/-! A character pays for a step: text shorter than the fuel is read to its end. -/

def ReadsValues (fuel : Nat) : Prop :=
  ∀ j rest, Printable j → Closes rest → j.print.length < fuel →
    readValue fuel (j.print ++ rest) = some (j, rest)

def ReadsItems (fuel : Nat) : Prop :=
  ∀ items rest, items ≠ [] → (∀ item ∈ items, Printable item) →
    (printItems items).length < fuel →
    readItems fuel (printItems items ++ rest) = some (items, rest)

def ReadsMembers (fuel : Nat) : Prop :=
  ∀ members rest, members ≠ [] → (∀ member ∈ members, Printable member.2) →
    (printMembers members).length < fuel →
    readMembers fuel (printMembers members ++ rest) = some (members, rest)

theorem readsValues_succ (hreads : ReadsItems fuel) (hreads' : ReadsMembers fuel) :
    ReadsValues (fuel + 1) := by
  intro j rest hj hrest hfuel
  cases hj with
  | null => simp [print, readValue]
  | bool value => cases value <;> simp [print, readValue]
  | int n =>
      rw [print, readValue_number (beginsNumber_printInt n rest)]
      exact readNumber_printInt n hrest
  | real hx =>
      rw [print, readValue_number (beginsNumber_printReal hx rest)]
      exact readNumber_printReal hx hrest
  | str text =>
      obtain ⟨body, hbody, htext⟩ := readText_printLiteralText text rest
      rw [print, hbody]
      simp [readValue, htext]
  | @arr items hprintable =>
      by_cases hne : items = []
      · subst hne
        simp [print, printItems, readValue, skipBlanks_cons (show isBlank ']' = false by decide)]
      · obtain ⟨c, cs, hcs, hc⟩ := printItems_head hne hprintable
        rw [print, List.length_cons] at hfuel
        have hitems := hreads items rest hne hprintable (by omega)
        rw [hcs, List.cons_append] at hitems
        rw [print, hcs]
        exact readValue_items hc hitems
  | @obj members hprintable =>
      by_cases hne : members = []
      · subst hne
        simp [print, printMembers, readValue,
          skipBlanks_cons (show isBlank '\x7d' = false by decide)]
      · obtain ⟨cs, hcs⟩ := printMembers_head hne
        rw [print, List.length_cons] at hfuel
        have hmembers := hreads' members rest hne hprintable (by omega)
        rw [hcs, List.cons_append] at hmembers
        rw [print, hcs]
        exact readValue_members hmembers

theorem readsItems_succ (hreads : ReadsValues fuel) (hreads' : ReadsItems fuel) :
    ReadsItems (fuel + 1) := by
  intro items rest hne hprintable hfuel
  match items with
  | [] => exact absurd rfl hne
  | [item] =>
      rw [printItems, List.length_append, List.length_singleton] at hfuel
      have hitem := hreads item (']' :: rest) (hprintable item List.mem_cons_self)
        (by simp [Closes]) (by omega)
      rw [printItems, List.append_assoc]
      exact readItems_last hitem
  | item :: next :: others =>
      rw [List.forall_mem_cons] at hprintable
      rw [printItems, List.length_append, List.length_cons] at hfuel
      have hitem := hreads item (',' :: (printItems (next :: others) ++ rest)) hprintable.1
        (by simp [Closes]) (by omega)
      have hothers := hreads' (next :: others) rest (by simp) hprintable.2 (by omega)
      obtain ⟨c, cs, hcs, hc⟩ := printItems_head (by simp) hprintable.2
      have hskip : skipBlanks (printItems (next :: others) ++ rest)
          = printItems (next :: others) ++ rest := by
        rw [hcs, List.cons_append, skipBlanks_cons hc.1]
      rw [printItems, List.append_assoc]
      exact readItems_more hitem hskip hothers

theorem readsMembers_succ (hreads : ReadsValues fuel) (hreads' : ReadsMembers fuel) :
    ReadsMembers (fuel + 1) := by
  intro members rest hne hprintable hfuel
  match members with
  | [] => exact absurd rfl hne
  | [(key, value)] =>
      have hvalue : Printable value := hprintable _ List.mem_cons_self
      simp only [printMembers, List.length_append, List.length_cons, List.length_nil] at hfuel
      obtain ⟨body, hbody, hkey⟩ := readText_printLiteralText key
        (':' :: (value.print ++ '\x7d' :: rest))
      have htext : printMembers [(key, value)] ++ rest = '"' :: body := by
        simpa [printMembers] using hbody
      rw [htext]
      exact readMembers_last hkey (skipBlanks_print hvalue _)
        (hreads value ('\x7d' :: rest) hvalue (by simp [Closes]) (by omega))
  | (key, value) :: next :: others =>
      rw [List.forall_mem_cons] at hprintable
      simp only [printMembers, List.length_append, List.length_cons] at hfuel
      obtain ⟨body, hbody, hkey⟩ := readText_printLiteralText key
        (':' :: (value.print ++ ',' :: (printMembers (next :: others) ++ rest)))
      have htext : printMembers ((key, value) :: next :: others) ++ rest = '"' :: body := by
        simpa [printMembers] using hbody
      obtain ⟨cs, hcs⟩ := printMembers_head (show next :: others ≠ [] by simp)
      have hskip : skipBlanks (printMembers (next :: others) ++ rest)
          = printMembers (next :: others) ++ rest := by
        rw [hcs, List.cons_append, skipBlanks_cons (by decide)]
      rw [htext]
      exact readMembers_more hkey (skipBlanks_print hprintable.1 _)
        (hreads value _ hprintable.1 (by simp [Closes]) (by omega)) hskip
        (hreads' (next :: others) rest (by simp) hprintable.2 (by omega))

theorem reads (fuel : Nat) : ReadsValues fuel ∧ ReadsItems fuel ∧ ReadsMembers fuel := by
  induction fuel with
  | zero => exact ⟨fun _ _ _ _ h => by omega, fun _ _ _ _ h => by omega, fun _ _ _ _ h => by omega⟩
  | succ fuel ih =>
      obtain ⟨hvalues, hitems, hmembers⟩ := ih
      exact ⟨readsValues_succ hitems hmembers, readsItems_succ hvalues hitems,
        readsMembers_succ hvalues hmembers⟩

/-- JSON text can be read back. -/
theorem parse?_compress {j : Json} (h : j.Printable) : parse? j.compress = some j := by
  have hread := (reads (2 * j.print.length + 2)).1 j [] h (by simp [Closes]) (by omega)
  have hskip := skipBlanks_print h []
  rw [List.append_nil] at hread hskip
  have hend : skipBlanks [] = [] := rfl
  rw [parse?, compress, String.toList_ofList]
  simp [hskip, hread, hend]

end Json

end SparseProgram
