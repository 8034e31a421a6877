import Mathlib.Data.Fin.VecNotation
import Tmuduo.Text

/-!
# The text of a socket address

`InetAddress` is `tmuduo::net::InetAddress` : an IPv4 or an IPv6 address with a port, in host
byte order. `inetNtop4` and `inetNtop6` are what `::inet_ntop` writes; the longest run of two or
more zero words of an IPv6 address is written as `::`, and an embedded IPv4 address is written
with dots.
-/

set_option autoImplicit false

namespace Tmuduo

/-- `tmuduo::net::InetAddress`. -/
inductive InetAddress
  | in4 (octets : Fin 4 → UInt8) (port : UInt16)
  | in6 (words : Fin 8 → UInt16) (port : UInt16)

/-! ## `inet_ntop` -/

def inetNtop4 (octets : Fin 4 → UInt8) : Bytes :=
  decimal (octets 0).toNat ++ ascii "." ++ decimal (octets 1).toNat ++ ascii "." ++
    decimal (octets 2).toNat ++ ascii "." ++ decimal (octets 3).toNat

/-- A run of zero words : the place where it starts, and its length. -/
structure ZeroRun where
  base : ℕ
  len : ℕ
  deriving DecidableEq, Repr

namespace ZeroRun

/-- The run `cur` is taken when it is the first or longer than `best`. -/
def longer : Option ZeroRun → Option ZeroRun → Option ZeroRun
  | best, none => best
  | none, some cur => some cur
  | some best, some cur => if cur.len > best.len then some cur else some best

/-- One zero word more, at the place `i`. -/
def extend (i : ℕ) : Option ZeroRun → ZeroRun
  | none => ⟨i, 1⟩
  | some cur => { cur with len := cur.len + 1 }

/-- The first of the longest runs, in the words from the place `i` on. -/
def scan : List UInt16 → ℕ → Option ZeroRun → Option ZeroRun → Option ZeroRun
  | [], _, best, cur => longer best cur
  | w :: ws, i, best, cur =>
    if w = 0 then scan ws (i + 1) best (extend i cur)
    else scan ws (i + 1) (longer best cur) none

/-- The run that is written as `::`. -/
def best (words : Fin 8 → UInt16) : Option ZeroRun :=
  (scan (List.ofFn words) 0 none none).filter fun run => run.len ≥ 2

/-- The place `i` is in the run. -/
def Within (run : ZeroRun) (i : ℕ) : Prop := run.base ≤ i ∧ i < run.base + run.len

instance (run : ZeroRun) (i : ℕ) : Decidable (run.Within i) :=
  inferInstanceAs (Decidable (_ ∧ _))

/-- The run stands before an embedded IPv4 address. -/
def Embeds (run : ZeroRun) (words : Fin 8 → UInt16) : Prop :=
  run.base = 0 ∧ (run.len = 6 ∨ run.len = 5 ∧ words 5 = 0xffff)

instance (run : ZeroRun) (words : Fin 8 → UInt16) : Decidable (run.Embeds words) :=
  inferInstanceAs (Decidable (_ ∧ _))

end ZeroRun

/-- The last two words as the octets of an IPv4 address. -/
def embeddedOctets (words : Fin 8 → UInt16) : Fin 4 → UInt8 :=
  ![(words 6 >>> 8).toUInt8, (words 6).toUInt8, (words 7 >>> 8).toUInt8, (words 7).toUInt8]

/-- The loop of `inet_ntop` that writes the words from the place `i` on. -/
def formatWords (words : Fin 8 → UInt16) (best : Option ZeroRun) : List UInt16 → ℕ → Bytes
  | [], _ => []
  | w :: ws, i =>
    if best.any (·.Within i) then
      (if best.any (·.base = i) then ascii ":" else []) ++ formatWords words best ws (i + 1)
    else
      (if i = 0 then [] else ascii ":") ++
        if i = 6 ∧ best.any (·.Embeds words) then inetNtop4 (embeddedOctets words)
        else hexadecimal w.toNat ++ formatWords words best ws (i + 1)

def inetNtop6 (words : Fin 8 → UInt16) : Bytes :=
  let best := ZeroRun.best words
  formatWords words best (List.ofFn words) 0 ++
    if best.any fun run => run.base + run.len = 8 then ascii ":" else []

/-! ## `toIp` and `toIpPort` -/

namespace InetAddress

/-- The size of the buffer that the text is written to. -/
def textSize : ℕ := 64

def port : InetAddress → UInt16
  | in4 _ port => port
  | in6 _ port => port

def toIp : InetAddress → Bytes
  | in4 octets _ => inetNtop4 octets
  | in6 words _ => inetNtop6 words

def toIpPort (addr : InetAddress) : Bytes :=
  addr.toIp ++ snprintf (textSize - addr.toIp.length) (ascii ":" ++ decimal addr.port.toNat)

end InetAddress

end Tmuduo
