import ResendRouter.Program.Basic
import ResendRouter.Foundation.Base64

/-! # Signatures of outbound deliveries

HMAC-SHA256 is a parameter: a function of a key and a message.
-/

namespace ResendRouter.Program
open Foundation

def dot : UInt8 := 0x2E

/-- The bytes that the outbound signature covers. -/
def deliveryContent (timestamp deliveryId eventId destination : String) (attempt : ℤ)
    (body : Bytes) : Bytes :=
  asBytes timestamp ++ dot :: (asBytes deliveryId ++ dot :: (asBytes eventId ++ dot ::
    (asBytes destination ++ dot :: (asBytes (toString attempt) ++ dot :: body))))

def signDelivery (hmacSha256 : Bytes → Bytes → Bytes) (secret timestamp deliveryId eventId
    destination : String) (attempt : ℤ) (body : Bytes) : String :=
  "v1," ++ Base64.standard.encode (hmacSha256 (asBytes secret)
    (deliveryContent timestamp deliveryId eventId destination attempt body))

end ResendRouter.Program
