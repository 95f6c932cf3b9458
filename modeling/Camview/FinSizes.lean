/-
The sizes of the arrays that are indexed with literals of `Fin`. Each is not zero by an
instance of its own, which is what such a literal refers to.
-/
import Mathlib.Logic.Basic

namespace Camview

instance (priority := high) neZeroTwo : @NeZero Nat Zero.ofOfNat0 2 := ⟨by decide⟩

instance (priority := high) neZeroThree : @NeZero Nat Zero.ofOfNat0 3 := ⟨by decide⟩

instance (priority := high) neZeroFour : @NeZero Nat Zero.ofOfNat0 4 := ⟨by decide⟩

instance (priority := high) neZeroEight : @NeZero Nat Zero.ofOfNat0 8 := ⟨by decide⟩

instance (priority := high) neZeroSixteen : @NeZero Nat Zero.ofOfNat0 16 := ⟨by decide⟩

end Camview
