import Mathlib.Data.List.Basic

/-!
# Texts that can be read back

A text tells a value when the value can be read off it, whatever follows, together with what
follows. Texts of one length do, and texts up to a separator that is not in them. Two of them one
behind the other tell both values (`Tells.append`), and a list of numbered records tells the value
of every record, if each starts with a mark that nothing behind them starts with
(`Tells.records`). A text at the end of another can be told if all such texts start alike up to a
mark and have as many marks (`eq_of_suffix_marked`).
-/

set_option autoImplicit false

namespace KernelV.Library

variable {α β γ δ : Type*}

/-- The first separator ends the text before it. -/
theorem append_separator_inj {separator : β} {chars chars' rest rest' : List β} (absent : separator ∉ chars)
    (absent' : separator ∉ chars') (same : chars ++ separator :: rest = chars' ++ separator :: rest') :
    chars = chars' ∧ rest = rest' := by
  induction chars generalizing chars' with
  | nil =>
      cases chars' with
      | nil => exact ⟨rfl, (List.cons.inj same).2⟩
      | cons c chars' =>
          obtain ⟨rfl, -⟩ := List.cons.inj same
          exact absurd List.mem_cons_self absent'
  | cons c chars ih =>
      cases chars' with
      | nil =>
          obtain ⟨rfl, -⟩ := List.cons.inj same
          exact absurd List.mem_cons_self absent
      | cons c' chars' =>
          obtain ⟨rfl, tails⟩ := List.cons.inj same
          obtain ⟨rfl, rests⟩ := ih (List.not_mem_of_not_mem_cons absent)
            (List.not_mem_of_not_mem_cons absent') tails
          exact ⟨rfl, rests⟩

/-- **Texts that start alike up to a mark, and have as many marks behind it, are no proper suffixes of
each other.** -/
theorem eq_of_suffix_marked [DecidableEq β] {mark : β} {start rest rest' : List β} (absent : mark ∉ start)
    (counts : rest.count mark = rest'.count mark)
    (suffix : start ++ mark :: rest <:+ start ++ mark :: rest') : rest = rest' := by
  obtain ⟨before, whole⟩ := suffix
  have unmarked : mark ∉ before := by
    have marks := congrArg (List.count mark) whole
    simp only [List.count_append, List.count_cons_self, counts] at marks
    exact List.count_eq_zero.mp (by omega)
  rw [← List.append_assoc] at whole
  have absentBefore : mark ∉ before ++ start := by
    rw [List.mem_append]
    exact fun inside => inside.elim unmarked absent
  exact (append_separator_inj absentBefore absent whole).2

/-- The value of an item can be told from its text, and so can what comes behind it. -/
def Tells (text : α → List β) (value : α → γ) : Prop :=
  ∀ a b rest rest', text a ++ rest = text b ++ rest' → value a = value b ∧ rest = rest'

namespace Tells

variable {text text' : α → List β} {value : α → γ} {value' : α → δ}

/-- A text that is always the same. -/
theorem const (chars : List β) (value : γ) : Tells (fun _ : α => chars) fun _ => value := by
  intro a b rest rest' same
  exact ⟨rfl, List.append_cancel_left same⟩

/-- Texts of one length. -/
theorem ofLength {length : ℕ} (lengths : ∀ a, (text a).length = length)
    (injective : ∀ a b, text a = text b → value a = value b) : Tells text value := by
  intro a b rest rest' same
  obtain ⟨texts, rests⟩ := List.append_inj same ((lengths a).trans (lengths b).symm)
  exact ⟨injective a b texts, rests⟩

/-- Texts up to a separator. -/
theorem separated {separator : β} (absent : ∀ a, separator ∉ text a)
    (injective : ∀ a b, text a = text b → value a = value b) :
    Tells (fun a => text a ++ [separator]) value := by
  intro a b rest rest' same
  rw [List.append_assoc, List.append_assoc] at same
  obtain ⟨texts, rests⟩ := append_separator_inj (absent a) (absent b) same
  exact ⟨injective a b texts, rests⟩

/-- **Two texts one behind the other tell both values.** -/
theorem append (first : Tells text value) (second : Tells text' value') :
    Tells (fun a => text a ++ text' a) fun a => (value a, value' a) := by
  intro a b rest rest' same
  rw [List.append_assoc, List.append_assoc] at same
  obtain ⟨values, behind⟩ := first a b _ _ same
  obtain ⟨values', rests⟩ := second a b rest rest' behind
  exact ⟨Prod.ext values values', rests⟩

/-- A value that is a function of the value told. -/
theorem map (tells : Tells text value) {f : γ → δ} (factors : ∀ a, value' a = f (value a)) :
    Tells text value' := by
  intro a b rest rest' same
  obtain ⟨values, rests⟩ := tells a b rest rest' same
  exact ⟨by rw [factors, factors, values], rests⟩

end Tells

/-- Numbered records one behind the other. -/
def records (text : ℕ → α → List β) : ℕ → List α → List β
  | _, [] => []
  | number, item :: items => text number item ++ records text (number + 1) items

/-- **Records tell the value of each of them**, if they start with a mark, and what is behind them
does not. -/
theorem Tells.records {text : ℕ → α → List β} {value : α → γ} (tells : ∀ number, Tells (text number) value)
    {mark : β} (starts : ∀ number item rest, (text number item ++ rest).head? = some mark)
    {items items' : List α} {number : ℕ} {rest rest' : List β} (ends : rest.head? ≠ some mark)
    (ends' : rest'.head? ≠ some mark)
    (same : records text number items ++ rest = records text number items' ++ rest') :
    items.map value = items'.map value ∧ rest = rest' := by
  induction items generalizing number items' with
  | nil =>
      cases items' with
      | nil => exact ⟨rfl, same⟩
      | cons item items' =>
          rw [Library.records, Library.records, List.append_assoc] at same
          have start := starts number item (Library.records text (number + 1) items' ++ rest')
          rw [← same] at start
          exact absurd start ends
  | cons item items ih =>
      cases items' with
      | nil =>
          rw [Library.records, Library.records, List.append_assoc] at same
          have start := starts number item (Library.records text (number + 1) items ++ rest)
          rw [same] at start
          exact absurd start ends'
      | cons item' items' =>
          rw [Library.records, Library.records, List.append_assoc, List.append_assoc] at same
          obtain ⟨first, behind⟩ := tells number item item' _ _ same
          obtain ⟨others, rests⟩ := ih behind
          exact ⟨by rw [List.map_cons, List.map_cons, first, others], rests⟩

end KernelV.Library
