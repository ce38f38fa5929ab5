import AgentGovernance.Digest.Sha2

/-!
# Ed25519 signatures

Points of the twisted Edwards curve are kept in extended coordinates over the field of
`2 ^ 255 - 19`. Verification recomputes the first half of the signature and compares its bytes:
keys of small order and keys whose ordinate is not reduced are accepted, the scalar half of a
signature has to be below the group order.
-/
namespace AgentGovernance.Ed25519

/-- The order of the coordinate field. -/
def fieldOrder : Nat := (1 <<< 255) - 19

/-- The order of the group the base point generates. -/
def groupOrder : Nat := (1 <<< 252) + 27742317777372353535851937790883648493

def powMod (modulus : Nat) : Nat → Nat → Nat → Nat → Nat
  | 0, _, _, acc => acc
  | bits + 1, base, exponent, acc =>
      powMod modulus bits (base * base % modulus) (exponent / 2)
        (if exponent % 2 = 1 then acc * base % modulus else acc)

/-- Powers in the field; exponents stay below `2 ^ 255`. -/
def power (base exponent : Nat) : Nat := powMod fieldOrder 255 (base % fieldOrder) exponent 1

def inverse (x : Nat) : Nat := power x (fieldOrder - 2)

def negate (x : Nat) : Nat := (fieldOrder - x % fieldOrder) % fieldOrder

def subtract (x y : Nat) : Nat := (x + negate y) % fieldOrder

/-- The curve constant `-121665 / 121666`. -/
def curveD : Nat := negate 121665 * inverse 121666 % fieldOrder

def sqrtMinusOne : Nat := power 2 ((fieldOrder - 1) / 4)

structure Point where
  x : Nat
  y : Nat
  z : Nat
  t : Nat

def identity : Point := ⟨0, 1, 1, 0⟩

def Point.add (p q : Point) : Point :=
  let a := subtract p.y p.x * subtract q.y q.x % fieldOrder
  let b := (p.y + p.x) * (q.y + q.x) % fieldOrder
  let c := 2 * p.t * q.t % fieldOrder * curveD % fieldOrder
  let d := 2 * p.z * q.z % fieldOrder
  let e := subtract b a
  let f := subtract d c
  let g := (d + c) % fieldOrder
  let h := (b + a) % fieldOrder
  ⟨e * f % fieldOrder, g * h % fieldOrder, f * g % fieldOrder, e * h % fieldOrder⟩

def Point.neg (p : Point) : Point := ⟨negate p.x, p.y, p.z, negate p.t⟩

def multiplyFrom : Nat → Nat → Point → Point → Point
  | 0, _, _, acc => acc
  | bits + 1, scalar, p, acc =>
      multiplyFrom bits (scalar / 2) (p.add p) (if scalar % 2 = 1 then acc.add p else acc)

/-- Multiples by scalars below `2 ^ 256`. -/
def Point.multiply (scalar : Nat) (p : Point) : Point := multiplyFrom 256 scalar p identity

/-- The ordinate in little-endian bytes, its top bit holding the parity of the abscissa. -/
def Point.compress (p : Point) : Bytes :=
  let zInverse := inverse p.z
  let x := p.x * zInverse % fieldOrder
  let y := p.y * zInverse % fieldOrder
  Bytes.littleEndian 32 (y + (x % 2) <<< 255)

/-- The point with a given ordinate and parity, if the curve has one. The ordinate is reduced
first, and a zero abscissa is taken under either parity. -/
def decompress? (bs : Bytes) : Option Point :=
  let n := Bytes.ofLittleEndian bs
  let odd := (n >>> 255) % 2
  let y := n % (1 <<< 255) % fieldOrder
  let u := subtract (y * y) 1
  let v := (curveD * (y * y % fieldOrder) + 1) % fieldOrder
  let v3 := v * v % fieldOrder * v % fieldOrder
  let v7 := v3 * v3 % fieldOrder * v % fieldOrder
  let r := u * v3 % fieldOrder * power (u * v7 % fieldOrder) ((fieldOrder - 5) / 8) % fieldOrder
  let check := v * (r * r % fieldOrder) % fieldOrder
  let root :=
    if check = u then some r
    else if check = negate u then some (r * sqrtMinusOne % fieldOrder)
    else none
  root.map fun r =>
    let x := if r % 2 = odd then r else negate r
    ⟨x, y, 1, x * y % fieldOrder⟩

/-- The base point has ordinate `4 / 5` and an even abscissa. -/
def basePoint : Point :=
  (decompress? (Bytes.littleEndian 32 (4 * inverse 5 % fieldOrder))).getD identity

/-- The scalar and the nonce seed behind a 32-byte secret. -/
def expandSecret (secret : Bytes) : Nat × Bytes :=
  let h := Sha2.sha512 secret
  let n := Bytes.ofLittleEndian (h.take 32)
  (n % (1 <<< 254) / 8 * 8 + (1 <<< 254), h.drop 32)

def publicKey (secret : Bytes) : Bytes := (basePoint.multiply (expandSecret secret).1).compress

def challenge (first key message : Bytes) : Nat :=
  Bytes.ofLittleEndian (Sha2.sha512 (first ++ key ++ message)) % groupOrder

def sign (secret message : Bytes) : Bytes :=
  let (scalar, seed) := expandSecret secret
  let key := publicKey secret
  let nonce := Bytes.ofLittleEndian (Sha2.sha512 (seed ++ message)) % groupOrder
  let first := (basePoint.multiply nonce).compress
  first ++ Bytes.littleEndian 32 ((nonce + challenge first key message * scalar) % groupOrder)

/-- Why a key or a signature is refused. -/
inductive Error where
  | notOnCurve
  | scalarTooLarge
  | equationFails
  deriving DecidableEq, Repr

def Error.message : Error → String
  | .notOnCurve => "signature error: Cannot decompress Edwards point"
  | .scalarTooLarge => "signature error: Cannot use scalar with high-bit set"
  | .equationFails => "signature error: Verification equation was not satisfied"

/-- A key that was found to be a point, with the bytes it was read from. -/
structure VerifyingKey where
  bytes : Bytes
  point : Point

def VerifyingKey.ofBytes (bytes : Bytes) : Except Error VerifyingKey :=
  match decompress? bytes with
  | some point => .ok ⟨bytes, point⟩
  | none => .error .notOnCurve

def VerifyingKey.verify (key : VerifyingKey) (message signature : Bytes) : Except Error Unit :=
  let first := signature.take 32
  let scalar := Bytes.ofLittleEndian (signature.drop 32)
  if scalar ≥ groupOrder then .error .scalarTooLarge
  else
    let k := challenge first key.bytes message
    let expected := (basePoint.multiply scalar).add (key.point.neg.multiply k)
    if expected.compress = first then .ok () else .error .equationFails

end AgentGovernance.Ed25519
