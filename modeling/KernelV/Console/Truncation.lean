import KernelV.Console.Numerals

/-!
# Buffers of different sizes

A smaller buffer should get the first characters of what a larger one gets. All conversions
are cut off at the end of the buffer, character by character, except for one: `%p` writes its
`0x` only where both characters fit, and its digits in any case. With room for a single
character it writes the first digit in place of the `0`.

So the output is cut off from the full text (`emitAll_eq_take_iff`) unless a pointer other
than null starts right at the last place (`SplitsPrefix`). Whatever happens there, the
characters before are right (`take_emitAll`), and two sizes agree exactly if the smaller one
does not split a prefix (`formatted_take_iff`).
-/

set_option autoImplicit false

namespace KernelV.Console

open Library Memory

/-! ## One directive -/

/-- A numeral of a positive number does not start with a zero. -/
theorem head?_numeral_ne {base n : ℕ} (radix : 1 < base) (small : base ≤ 16) (positive : 0 < n) :
    (numeral base n).head? ≠ some (chr '0') := by
  induction n using Nat.strong_induction_on with
  | _ n ih =>
      by_cases single : n < base
      · have digits : ∀ d < 16, 0 < d → chr d.digitChar ≠ chr '0' := by decide
        rw [numeral_of_lt single, List.head?_singleton]
        intro same
        exact digits n (by omega) positive (Option.some.inj same)
      · have large := Nat.le_of_not_lt single
        have first : 0 < n / base := Nat.div_pos large (by omega)
        have some' : numeral base (n / base) ≠ [] := List.ne_nil_of_length_pos (length_numeral_pos _ _)
        rw [numeral_of_le radix large, List.head?_append_of_ne_nil _ some']
        exact ih (n / base) (Nat.div_lt_self positive radix) first

/-- A `%p`, whose width has no effect. -/
def Directive.IsPointer (directive : Directive) : Prop :=
  ∃ digits complete, directive = .specifier digits (chr 'p') complete

theorem Conversion.ofByte_eq_pointer_iff (c : Byte) : Conversion.ofByte c = .pointer ↔ c = chr 'p' := by
  revert c
  decide

/-- Two characters of prefix and at least one digit. -/
theorem Directive.IsPointer.render_eq {directive : Directive} (pointer : directive.IsPointer)
    (text : Strings) (args : VaList) :
    directive.render text args = chr '0' :: chr 'x' :: numeral 16 (args 0).toNat := by
  obtain ⟨digits, complete, rfl⟩ := pointer
  rw [← reverse_hexTmp (show 8 ≤ 20 by decide)]
  rfl

theorem Directive.IsPointer.emit_one {directive : Directive} (pointer : directive.IsPointer)
    (text : Strings) (args : VaList) :
    directive.emit text args 1 = (numeral 16 (args 0).toNat).take 1 := by
  obtain ⟨digits, complete, rfl⟩ := pointer
  rw [← reverse_hexTmp (show 8 ≤ 20 by decide)]
  rfl

/-- A directive is cut off from its text, but for the prefix of a pointer. -/
theorem Directive.emit_eq_take (text : Strings) (args : VaList) {room : ℕ} {directive : Directive}
    (whole : ¬ (room = 1 ∧ directive.IsPointer)) :
    directive.emit text args room = (directive.render text args).take room := by
  cases directive with
  | literal c plain => rfl
  | specifier digits c complete =>
      rw [Directive.emit, Conversion.emit]
      split
      case isTrue tight =>
          have pointer : c = chr 'p' := (Conversion.ofByte_eq_pointer_iff c).mp tight.1
          subst pointer
          have none : room = 0 := by
            have other : room ≠ 1 := fun one => whole ⟨one, digits, complete, rfl⟩
            omega
          rw [none, List.take_zero, List.take_zero]
      case isFalse => rfl

/-- **With one place left, a pointer is cut off from its text if and only if it is null.** -/
theorem Directive.IsPointer.emit_one_iff {directive : Directive} (pointer : directive.IsPointer)
    (text : Strings) (args : VaList) :
    directive.emit text args 1 = (directive.render text args).take 1 ↔ args 0 = 0 := by
  rw [pointer.emit_one, pointer.render_eq]
  constructor
  · intro same
    by_contra nonzero
    have positive : 0 < (args 0).toNat := by
      refine Nat.pos_of_ne_zero fun zero => nonzero (BitVec.eq_of_toNat_eq zero)
    refine head?_numeral_ne (show 1 < 16 by decide) le_rfl positive ?_
    have first := congrArg List.head? same
    rwa [List.head?_take, if_neg Nat.one_ne_zero] at first
  · intro null
    rw [null]
    rfl

/-! ## Whole formats -/

/-- A pointer other than null starts at the last of `room` places. -/
def SplitsPrefix (text : Strings) (room : ℕ) (directives : List Directive) (args : VaList) : Prop :=
  ∃ before pointer after, directives = before ++ pointer :: after ∧ pointer.IsPointer ∧
    argsAfter before args 0 ≠ 0 ∧ (renderAll text before args).length + 1 = room

theorem splitsPrefix_cons (text : Strings) (room : ℕ) (directive : Directive)
    (directives : List Directive) (args : VaList) :
    SplitsPrefix text room (directive :: directives) args ↔
      (directive.IsPointer ∧ args 0 ≠ 0 ∧ room = 1) ∨
        SplitsPrefix text (room - (directive.render text args).length) directives
          (directive.nextArgs args) := by
  constructor
  · rintro ⟨before, pointer, after, shape, isPointer, nonzero, place⟩
    cases before with
    | nil =>
        obtain ⟨rfl, -⟩ := List.cons.inj shape
        exact .inl ⟨isPointer, nonzero, place.symm⟩
    | cons first before =>
        obtain ⟨rfl, rest⟩ := List.cons.inj shape
        refine .inr ⟨before, pointer, after, rest, isPointer, nonzero, ?_⟩
        rw [renderAll, List.length_append] at place
        omega
  · rintro (⟨isPointer, nonzero, rfl⟩ | ⟨before, pointer, after, rfl, isPointer, nonzero, place⟩)
    · exact ⟨[], directive, directives, rfl, isPointer, nonzero, rfl⟩
    · refine ⟨directive :: before, pointer, after, rfl, isPointer, nonzero, ?_⟩
      rw [renderAll, List.length_append]
      omega

section Formats

variable (text : Strings)

/-- What is left for the other directives. -/
theorem emitAll_cons (room : ℕ) (directive : Directive) (directives : List Directive) (args : VaList) :
    emitAll text room (directive :: directives) args =
      directive.emit text args room ++
        emitAll text (room - (directive.render text args).length) directives
          (directive.nextArgs args) := by
  have left : room - (directive.emit text args room).length =
      room - (directive.render text args).length := by
    rw [directive.length_emit]
    omega
  rw [emitAll, left]

theorem take_renderAll_cons (room : ℕ) (directive : Directive) (directives : List Directive)
    (args : VaList) :
    (renderAll text (directive :: directives) args).take room =
      (directive.render text args).take room ++
        (renderAll text directives (directive.nextArgs args)).take
          (room - (directive.render text args).length) := by
  rw [renderAll, List.take_append]

/-- **The output is the text, cut off, exactly if no prefix is split.** -/
theorem emitAll_eq_take_iff (room : ℕ) (directives : List Directive) (args : VaList) :
    emitAll text room directives args = (renderAll text directives args).take room ↔
      ¬ SplitsPrefix text room directives args := by
  induction directives generalizing room args with
  | nil =>
      refine iff_of_true List.take_nil.symm ?_
      rintro ⟨before, pointer, after, shape, -⟩
      simp at shape
  | cons directive directives ih =>
      have lengths : (directive.emit text args room).length =
          ((directive.render text args).take room).length := by
        rw [directive.length_emit, List.length_take]
      have parts : ∀ {as bs : List Byte}, directive.emit text args room ++ as =
          (directive.render text args).take room ++ bs ↔
            directive.emit text args room = (directive.render text args).take room ∧ as = bs :=
        ⟨fun same => List.append_inj same lengths, fun same => by rw [same.1, same.2]⟩
      rw [emitAll_cons, take_renderAll_cons, splitsPrefix_cons, not_or, ← ih, parts]
      refine and_congr_left fun _ => ?_
      by_cases split : room = 1 ∧ directive.IsPointer
      · obtain ⟨rfl, pointer⟩ := split
        rw [pointer.emit_one_iff]
        simp [pointer]
      · refine iff_of_true (Directive.emit_eq_take text args split) ?_
        rintro ⟨pointer, -, one⟩
        exact split ⟨one, pointer⟩

/-- **Before the last place the output is always that of the text.** -/
theorem take_emitAll (room : ℕ) (directives : List Directive) (args : VaList) :
    (emitAll text room directives args).take (room - 1) =
      (renderAll text directives args).take (room - 1) := by
  induction directives generalizing room args with
  | nil => rfl
  | cons directive directives ih =>
      have written := directive.length_emit text args room
      rw [emitAll_cons, take_renderAll_cons, List.take_append]
      by_cases fits : (directive.render text args).length < room
      · rw [Directive.emit_of_le text args fits.le]
        have rest := ih (room - (directive.render text args).length) (directive.nextArgs args)
        rw [Nat.sub_right_comm] at rest
        rw [rest]
      · have none : room - 1 - (directive.emit text args room).length = 0 := by omega
        have none' : room - 1 - (directive.render text args).length = 0 := by omega
        rw [none, none', List.take_zero, List.take_zero, List.append_nil, List.append_nil]
        by_cases split : room = 1 ∧ directive.IsPointer
        · rw [split.1, List.take_zero, List.take_zero]
        · rw [Directive.emit_eq_take text args split, List.take_take, min_eq_left (Nat.sub_le _ _)]

/-- **The two outputs agree, as far as the smaller one goes, exactly if the sizes are equal or
the smaller one splits no prefix.** -/
theorem formatted_take_iff (buf buf' : ℕ → Byte) {n m : ℕ} (ordered : n ≤ m)
    (directives : List Directive) (rest : List Byte) (args : VaList) :
    formatted text buf n (formatChars directives ++ 0 :: rest) args =
        (formatted text buf' m (formatChars directives ++ 0 :: rest) args).take (n - 1) ↔
      n = m ∨ ¬ SplitsPrefix text (n - 1) directives args := by
  rw [formatted_directives, formatted_directives]
  by_cases same : n = m
  · subst same
    refine iff_of_true ?_ (.inl rfl)
    exact (List.take_of_length_le (length_emitAll_le text _ directives args)).symm
  · have cut : n - 1 = min (n - 1) (m - 1 - 1) := by omega
    have larger : (emitAll text (m - 1) directives args).take (n - 1) =
        (renderAll text directives args).take (n - 1) := by
      rw [cut, ← List.take_take, take_emitAll, List.take_take]
    rw [larger, emitAll_eq_take_iff]
    exact ⟨.inr, fun either => either.resolve_left same⟩

end Formats

/-- `"%p"`. -/
def pointerDirective : Directive := .specifier [] (chr 'p') (by decide)

/-- With two bytes the pointer is cut inside its prefix, with one byte it is not. -/
theorem formatted_take_pointerDirective :
    1 ≤ 4 ∧ formatted (fun _ => nullText) (fun _ => 0) 1 (formatChars [pointerDirective] ++ [0])
        (fun _ => 0xAB) =
      (formatted (fun _ => nullText) (fun _ => 0) 4 (formatChars [pointerDirective] ++ [0])
        fun _ => 0xAB).take 0 := by
  refine ⟨by decide, (formatted_take_iff _ _ _ (by decide) _ _ _).mpr (.inr ?_)⟩
  rintro ⟨before, pointer, after, -, -, -, place⟩
  exact absurd place (by simp)

/-- The address `0xAB` in a buffer of two bytes is `a`, and in a larger one `0xab`. -/
theorem formatted_pointer_differs :
    formatted (fun _ => nullText) (fun _ => 0) 2 (formatChars [pointerDirective] ++ [0]) (fun _ => 0xAB) ≠
      (formatted (fun _ => nullText) (fun _ => 0) 5 (formatChars [pointerDirective] ++ [0])
        fun _ => 0xAB).take 1 := by
  rw [formatted_directives, formatted_directives]
  decide

end KernelV.Console
