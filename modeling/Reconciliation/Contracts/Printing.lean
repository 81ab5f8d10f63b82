/-
  Reconciliation.Contracts.Printing — what `repr` prints is sealed.

  A string is printed in quotes, with a backslash before any quote or backslash in it; all else
  that is printed holds neither quotes nor a bar. So where a printed value ends can be told from
  what follows, whatever the value holds (`sealed_repr`).
-/
import Reconciliation.Base.Fields
import Reconciliation.Contracts.Values

namespace Reconciliation.Contracts

open Reconciliation.Base.Fields

/-- A float is printed without quotes and without a bar, as digits, signs, points and letters are. -/
def PlainFloats [PyRuntime] : Prop :=
  ∀ f, ∀ c ∈ (PyRuntime.floatRepr f).toList, c ≠ '|' ∧ c ≠ '\'' ∧ c ≠ '"'

/-! ## Digits -/

theorem mem_toDigits {b n : Nat} {c : Char} (h : c ∈ Nat.toDigits b n) : ∃ m, c = Nat.digitChar m := by
  have hcore : ∀ fuel n cs, (∀ c ∈ cs, ∃ m, c = Nat.digitChar m) →
      ∀ c ∈ Nat.toDigitsCore b fuel n cs, ∃ m, c = Nat.digitChar m := by
    intro fuel
    induction fuel with
    | zero => exact fun n cs hcs => hcs
    | succ fuel ih =>
      intro n cs hcs
      have hcons : ∀ c ∈ Nat.digitChar (n % b) :: cs, ∃ m, c = Nat.digitChar m := by
        intro c hc
        rcases List.mem_cons.mp hc with rfl | hc
        · exact ⟨_, rfl⟩
        · exact hcs c hc
      rw [Nat.toDigitsCore]
      split
      · exact hcons
      · exact ih _ _ hcons
  exact hcore _ n [] (fun c hc => absurd hc List.not_mem_nil) c h

theorem sealed_toString (z : Int) : Sealed '|' (toString z) := by
  have hnat : ∀ n : Nat, ∀ c ∈ (toString n).toList, c ≠ '|' ∧ c ≠ '\'' ∧ c ≠ '"' := by
    intro n c hc
    rw [Nat.toString_eq_ofList_toDigits, String.toList_ofList] at hc
    obtain ⟨m, rfl⟩ := mem_toDigits hc
    exact ⟨Nat.digitChar_ne _ (by decide), Nat.digitChar_ne _ (by decide), Nat.digitChar_ne _ (by decide)⟩
  cases z with
  | ofNat n => exact sealed_plain (hnat n)
  | negSucc n =>
    have hsign : Sealed '|' "-" := sealed_plain (by simp)
    exact hsign.append (sealed_plain (hnat (n + 1)))

theorem plain_hexDigits {width n : Nat} {c : Char} (h : c ∈ (hexDigits width n).toList) :
    c ≠ '\'' ∧ c ≠ '"' ∧ c ≠ '\\' := by
  simp only [hexDigits, String.toList_ofList, List.mem_append] at h
  rcases h with h | h
  · rw [List.eq_of_mem_replicate h]
    decide
  · obtain ⟨m, rfl⟩ := mem_toDigits h
    exact ⟨Nat.digitChar_ne _ (by decide), Nat.digitChar_ne _ (by decide), Nat.digitChar_ne _ (by decide)⟩

/-! ## Strings -/

section Printing
variable [PyRuntime]

theorem within_pyReprChar {quote : Char} (hquote : quote = '\'' ∨ quote = '"') (c : Char) :
    Within '|' quote (pyReprChar quote c) := by
  have hdigits : ∀ width n, Within '|' quote (hexDigits width n) := by
    intro width n
    refine within_plain fun c hc => ?_
    obtain ⟨hsingle, hdouble, hback⟩ := plain_hexDigits hc
    rcases hquote with rfl | rfl
    · exact ⟨hsingle, hback⟩
    · exact ⟨hdouble, hback⟩
  unfold pyReprChar
  split
  · exact within_escape c
  · rename_i hplain
    have hself : Within '|' quote (String.ofList [c]) := by
      refine within_plain fun c' hc' => ?_
      rw [String.toList_ofList, List.mem_singleton] at hc'
      exact hc' ▸ not_or.mp hplain
    split
    · exact within_escape 't'
    · split
      · exact within_escape 'n'
      · split
        · exact within_escape 'r'
        · split
          · exact hself
          · split
            · exact hself
            · split
              · exact (within_escape 'x').append (hdigits 2 c.toNat)
              · split
                · exact (within_escape 'u').append (hdigits 4 c.toNat)
                · exact (within_escape 'U').append (hdigits 8 c.toNat)

theorem sealed_pyReprStr (s : String) : Sealed '|' (pyReprStr s) := by
  have hquoted : ∀ quote : Char, quote = '\'' ∨ quote = '"' →
      Sealed '|' (String.ofList [quote] ++ String.join (s.toList.map (pyReprChar quote)) ++ String.ofList [quote]) := by
    intro quote hquote
    refine sealed_quoted hquote (by rcases hquote with rfl | rfl <;> decide) (within_join fun w hw => ?_)
    obtain ⟨c, -, rfl⟩ := List.mem_map.mp hw
    exact within_pyReprChar hquote c
  unfold pyReprStr
  simp only
  split
  · exact hquoted '"' (Or.inr rfl)
  · exact hquoted '\'' (Or.inl rfl)

/-! ## Values -/

namespace CanonicalValue

mutual

theorem sealed_repr (hfloats : PlainFloats) : ∀ v : CanonicalValue, Sealed '|' v.repr
  | .none => show Sealed '|' "None" from sealed_plain (by simp)
  | .bool true => show Sealed '|' "True" from sealed_plain (by simp)
  | .bool false => show Sealed '|' "False" from sealed_plain (by simp)
  | .int z => sealed_toString z
  | .float f => sealed_plain (hfloats f)
  | .str s => sealed_pyReprStr s
  | .list items => by
    have hopen : Sealed '|' "[" := sealed_plain (by simp)
    have hclose : Sealed '|' "]" := sealed_plain (by simp)
    exact (hopen.append (sealed_intercalate (sealed_plain (by simp)) (sealed_reprItems hfloats items))).append hclose
  | .dict entries => by
    have hopen : Sealed '|' "\x7b" := sealed_plain (by simp)
    have hclose : Sealed '|' "\x7d" := sealed_plain (by simp)
    exact (hopen.append (sealed_intercalate (sealed_plain (by simp)) (sealed_reprEntries hfloats entries))).append hclose

theorem sealed_reprItems (hfloats : PlainFloats) : ∀ items : List CanonicalValue, ∀ w ∈ reprItems items, Sealed '|' w
  | [], _, hw => absurd hw List.not_mem_nil
  | v :: rest, w, hw => by
    rcases List.mem_cons.mp hw with rfl | hw
    · exact sealed_repr hfloats v
    · exact sealed_reprItems hfloats rest w hw

theorem sealed_reprEntries (hfloats : PlainFloats) :
    ∀ entries : List (String × CanonicalValue), ∀ w ∈ reprEntries entries, Sealed '|' w
  | [], _, hw => absurd hw List.not_mem_nil
  | (k, v) :: rest, w, hw => by
    rcases List.mem_cons.mp hw with rfl | hw
    · have hcolon : Sealed '|' ": " := sealed_plain (by simp)
      exact ((sealed_pyReprStr k).append hcolon).append (sealed_repr hfloats v)
    · exact sealed_reprEntries hfloats rest w hw

end

end CanonicalValue

end Printing

end Reconciliation.Contracts
