import Mathlib.Tactic

/-!
# Sizes of the tables

The tables and rings of the kernel have fixed sizes.  The instances behind the literals of
their indices have names here, so that all modules use the same ones.
-/

namespace HelixOS

instance neZero8 : NeZero 8 := ⟨by decide⟩

instance neZero16 : NeZero 16 := ⟨by decide⟩

instance neZero32 : NeZero 32 := ⟨by decide⟩

instance neZero64 : NeZero 64 := ⟨by decide⟩

instance neZero512 : NeZero 512 := ⟨by decide⟩

instance neZero4096 : NeZero 4096 := ⟨by decide⟩

end HelixOS
