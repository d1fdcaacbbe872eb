import HeaderRelay.Wire.Reader
import HeaderRelay.Wire.Writer

/-!
# Service bits

Each end of a connection says what it can do in a word of 64 bits. Four of the bits matter to
header relay; the others are carried along untouched.

* `Services` — the word, with one question per known bit;
* `Services.describe` — the four answers as text.
-/

namespace HeaderRelay

structure Services where
  bits : UInt64
  deriving DecidableEq, Repr

namespace Services

/-! ## Known bits -/

/-- Serves whole blocks. -/
def networkBit : UInt64 := 1

/-- Answers bloom filter requests. -/
def bloomBit : UInt64 := 4

/-- Serves recent blocks only. -/
def networkLimitedBit : UInt64 := 1024

/-- Understands compressed header relay. -/
def headersCompressedBit : UInt64 := 2048

def has (services : Services) (bit : UInt64) : Bool :=
  services.bits &&& bit == bit

def network (services : Services) : Bool :=
  services.has networkBit

def bloom (services : Services) : Bool :=
  services.has bloomBit

def networkLimited (services : Services) : Bool :=
  services.has networkLimitedBit

def headersCompressed (services : Services) : Bool :=
  services.has headersCompressedBit

/-! ## Text and wire form -/

/-- One line per known bit, inside braces. -/
def describe (services : Services) : String :=
  s!"Services \x7b\n    network: {services.network},\n    bloom: {services.bloom},\n" ++
    s!"    network_limited: {services.networkLimited},\n" ++
    s!"    headers_compressed: {services.headersCompressed}\x7d"

def bytes (services : Services) : List UInt8 :=
  Writer.u64 services.bits

def read : Reader Services := do
  return ⟨← Reader.u64 "services"⟩

end Services
end HeaderRelay
