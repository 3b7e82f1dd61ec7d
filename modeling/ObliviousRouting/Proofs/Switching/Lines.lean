import Mathlib.Data.List.Basic
import ObliviousRouting.Proofs.Bytes.Ascii
import ObliviousRouting.Switching.Greeting

/-!
# Every shape has a line of its own

The numbers in a line are read up to the space behind them, so two shapes that are told in the same line
are the same. And since a line is made of ASCII characters, no other bytes are read as that line.
-/

namespace ObliviousRouting.Switching

/-- What is said up to a separator, and what is said behind it. -/
theorem eq_of_append_cons_eq {α : Type} {l l' rest rest' : List α} {sep : α} (h : sep ∉ l) (h' : sep ∉ l')
    (heq : l ++ sep :: rest = l' ++ sep :: rest') : l = l' ∧ rest = rest' := by
  induction l generalizing l' with
  | nil =>
    cases l' with
    | nil => exact ⟨rfl, List.tail_eq_of_cons_eq heq⟩
    | cons c l' => exact absurd (List.head_eq_of_cons_eq heq ▸ List.mem_cons_self) h'
  | cons c l ih =>
    cases l' with
    | nil => exact absurd (List.head_eq_of_cons_eq heq ▸ List.mem_cons_self) h
    | cons c' l' =>
      obtain ⟨rfl, htail⟩ := List.cons.inj heq
      obtain ⟨rfl, hrest⟩ := ih (fun hmem => h (List.mem_cons_of_mem _ hmem))
        (fun hmem => h' (List.mem_cons_of_mem _ hmem)) htail
      exact ⟨rfl, hrest⟩

section Number

variable {m n : Nat}

theorem toList_number (n : Nat) : (toString n).toList = Nat.toDigits 10 n := String.toList_ofList

theorem number_inj (h : (toString m).toList = (toString n).toList) : m = n := by
  rw [toList_number, toList_number] at h
  rw [← Nat.ofDigitChars_toDigits (b := 10) (n := m) (by decide) (by decide), h,
    Nat.ofDigitChars_toDigits (by decide) (by decide)]

theorem isDigit_of_mem_number {c : Char} (h : c ∈ (toString n).toList) : c.isDigit = true := by
  rw [toList_number] at h
  exact Nat.isDigit_of_mem_toDigits (by decide) (by decide) h

theorem space_not_mem_number : ' ' ∉ (toString n).toList :=
  fun h => absurd (isDigit_of_mem_number h) (by decide)

theorem ascii_number : Text.Ascii (toString n).toList := by
  intro c hc
  have hdigit := isDigit_of_mem_number hc
  rw [Char.isDigit, Bool.and_eq_true, decide_eq_true_eq, decide_eq_true_eq] at hdigit
  exact Nat.lt_of_le_of_lt (UInt32.le_iff_toNat_le.1 hdigit.2) (by decide)

end Number

theorem space_not_mem_name (kind : Kind) : ' ' ∉ kind.name.toList := by cases kind <;> decide

theorem name_inj {kind kind' : Kind} (h : kind.name.toList = kind'.name.toList) : kind = kind' := by
  revert h
  cases kind <;> cases kind' <;> decide

namespace Shape

/-- The words of a line, each behind the one before. -/
theorem toList_greeting (shape : Shape) (part : Part) : (shape.greeting part).toList =
    part.name.toList ++ (": ".toList ++ (shape.kind.name.toList ++ ' ' :: ("src_rows=".toList ++
      ((toString shape.sourceRows).toList ++ ' ' :: ("dest_rows=".toList ++
        ((toString shape.destinationRows).toList ++ ' ' :: ("stride=".toList ++
          ((toString shape.stride).toList ++ ' ' :: ("batch=".toList ++
            (toString shape.size.rows).toList))))))))) := by
  have hself (text : String) : toString text = text := rfl
  simp only [greeting, describe, hself, String.toList_append, List.append_assoc]
  rfl

theorem greeting_injective {shape shape' : Shape} {part : Part}
    (h : shape.greeting part = shape'.greeting part) : shape = shape' := by
  have hlist := congrArg String.toList h
  rw [toList_greeting, toList_greeting, List.append_cancel_left_eq, List.append_cancel_left_eq] at hlist
  obtain ⟨kind, sourceRows, destinationRows, stride, ⟨rows⟩⟩ := shape
  obtain ⟨kind', sourceRows', destinationRows', stride', ⟨rows'⟩⟩ := shape'
  obtain ⟨hkind, hlist⟩ := eq_of_append_cons_eq (space_not_mem_name _) (space_not_mem_name _) hlist
  rw [List.append_cancel_left_eq] at hlist
  obtain ⟨hsource, hlist⟩ := eq_of_append_cons_eq space_not_mem_number space_not_mem_number hlist
  rw [List.append_cancel_left_eq] at hlist
  obtain ⟨hdestination, hlist⟩ :=
    eq_of_append_cons_eq space_not_mem_number space_not_mem_number hlist
  rw [List.append_cancel_left_eq] at hlist
  obtain ⟨hstride, hlist⟩ := eq_of_append_cons_eq space_not_mem_number space_not_mem_number hlist
  rw [List.append_cancel_left_eq] at hlist
  cases name_inj hkind
  cases number_inj hsource
  cases number_inj hdestination
  cases number_inj hstride
  cases number_inj hlist
  rfl

theorem ascii_greeting (shape : Shape) (part : Part) : Text.Ascii (shape.greeting part).toList := by
  have hpart : Text.Ascii part.name.toList := by cases part <;> decide
  have hkind : Text.Ascii shape.kind.name.toList := by cases shape.kind <;> decide
  have hwords : ∀ word ∈ [": ", "src_rows=", "dest_rows=", "stride=", "batch="],
      Text.Ascii word.toList := by decide
  simp only [List.forall_mem_cons, List.not_mem_nil, false_implies, implies_true, and_true] at hwords
  rw [toList_greeting]
  simp only [Text.ascii_append, Text.ascii_cons, hpart, hkind, hwords, ascii_number, true_and, and_true]
  decide

/-- The only bytes that are read as a greeting are those of the greeting. -/
theorem eq_encode_greeting {shape : Shape} {part : Part} {message : Bytes}
    (h : Text.decode message = shape.greeting part) : message = Text.encode (shape.greeting part) := by
  rw [← h, Text.encode_decode]
  rw [h]
  exact shape.ascii_greeting part

end Shape

end ObliviousRouting.Switching
