import Mathlib.Algebra.Group.Pi.Basic
import Mathlib.Data.BitVec
import Mathlib.Data.List.FinRange

/-!
# The two generators

`isaac.c`, whose words encipher the opcodes of a session, and `flea.c`, which
`server_random` draws from. A word is a `uint32_t`; `mm` and `randrsl` are the
arrays of 256.
-/

namespace Sundae.Ref

abbrev Word := BitVec 32

/-! ## ISAAC -/

/-- "internal state" -/
structure IsaacState where
  mm : Fin 256 → Word := fun _ => 0
  aa : Word := 0
  bb : Word := 0
  cc : Word := 0

/-- `struct isaac`. `randcnt` is at most 256. -/
structure Isaac where
  state : IsaacState := {}
  randrsl : Fin 256 → Word := fun _ => 0
  randcnt : Fin 257 := 0

/-- A generator that has not been seeded. -/
def Isaac.unseeded : Isaac := {}

/-- The switch on `i % 4`. -/
def scramble (i : Fin 256) (aa : Word) : Word :=
  match i.val % 4 with
  | 0 => aa ^^^ (aa <<< 13)
  | 1 => aa ^^^ (aa >>> 6)
  | 2 => aa ^^^ (aa <<< 2)
  | _ => aa ^^^ (aa >>> 16)

/-- `w % 256` -/
def slot (w : Word) : Fin 256 := Fin.ofNat 256 w.toNat

/-- One turn of the loop of `doisaac`, but for the result. -/
def isaacTurn (s : IsaacState) (i : Fin 256) : IsaacState :=
  let x := s.mm i
  let aa := s.mm (i + 128) + scramble i s.aa
  let y := s.mm (slot (x >>> 2)) + aa + s.bb
  let mm := Function.update s.mm i y
  { s with mm := mm, aa := aa, bb := mm (slot (y >>> 10)) + x }

/-- The result is what `bb` is set to. -/
def resultTurn (s : Isaac) (i : Fin 256) : Isaac :=
  let state := isaacTurn s.state i
  { s with state := state, randrsl := Function.update s.randrsl i state.bb }

def doisaac (s : Isaac) : Isaac :=
  let cc := s.state.cc + 1
  (List.finRange 256).foldl resultTurn
    { s with state := { s.state with cc := cc, bb := s.state.bb + cc } }

/-- `randcnt-- == 0`, and the read of `randrsl[randcnt]`. -/
def isaacNext (s : Isaac) : Word × Isaac :=
  if h : s.randcnt = 0 then
    let s := doisaac s
    (s.randrsl 255, { s with randcnt := 255 })
  else
    (s.randrsl ⟨s.randcnt.val - 1, by omega⟩, { s with randcnt := ⟨s.randcnt.val - 1, by omega⟩ })

/-- `a` to `h` -/
abbrev Octet := Fin 8 → Word

/-- A line of `mix`: `x ^= f(y); w += x; y += z;` for the letter `x` and the
three after it. -/
def mixLine (x : Fin 8) (f : Word → Word) (m : Octet) : Octet :=
  let m := Function.update m x (m x ^^^ f (m (x + 1)))
  let m := Function.update m (x + 3) (m (x + 3) + m x)
  Function.update m (x + 1) (m (x + 1) + m (x + 2))

def mix (m : Octet) : Octet :=
  let m := mixLine 0 (· <<< 11) m
  let m := mixLine 1 (· >>> 2) m
  let m := mixLine 2 (· <<< 8) m
  let m := mixLine 3 (· >>> 16) m
  let m := mixLine 4 (· <<< 10) m
  let m := mixLine 5 (· >>> 4) m
  let m := mixLine 6 (· <<< 8) m
  mixLine 7 (· >>> 9) m

/-- `i + j`, where `i` is the `n`-th multiple of eight. -/
def place (n : Nat) (j : Fin 8) : Fin 256 := Fin.ofNat 256 (8 * n + j.val)

def octetAt (mm : Fin 256 → Word) (n : Nat) : Octet := fun j => mm (place n j)

def putOctet (mm : Fin 256 → Word) (n : Nat) (m : Octet) : Fin 256 → Word := fun i =>
  if i.val / 8 = n then m (Fin.ofNat 8 i.val) else mm i

/-- "fill in mm[] with messy stuff": `n` turns of the first loop. -/
def fillLoop (flag : Bool) (randrsl : Fin 256 → Word) :
    Nat → Octet × (Fin 256 → Word) → Octet × (Fin 256 → Word)
  | 0, p => p
  | n + 1, p =>
    let (m, mm) := fillLoop flag randrsl n p
    let m := mix (if flag then m + octetAt randrsl n else m)
    (m, putOctet mm n m)

/-- "do a second pass to make all of the seed affect all of mm" -/
def spreadLoop : Nat → Octet × (Fin 256 → Word) → Octet × (Fin 256 → Word)
  | 0, p => p
  | n + 1, p =>
    let (m, mm) := spreadLoop n p
    let m := mix (m + octetAt mm n)
    (m, putOctet mm n m)

/-- "the golden ratio", scrambled -/
def golden : Octet := mix (mix (mix (mix fun _ => 0x9e3779b9)))

/-- `mm` as the two passes leave it. -/
def seededMm (flag : Bool) (randrsl : Fin 256 → Word) : Fin 256 → Word :=
  let p := fillLoop flag randrsl 32 (golden, fun _ => 0)
  (if flag then spreadLoop 32 p else p).2

def isaacInit (s : Isaac) (flag : Bool) : Isaac :=
  { doisaac { s with state := { mm := seededMm flag s.randrsl } } with randcnt := 256 }

/-- What `process_login_isaac` makes of the four words of a session key. -/
def isaacKeyed (key : Fin 4 → Word) : Isaac :=
  isaacInit { randrsl := fun i => if h : i.val < 4 then key ⟨i.val, h⟩ else 0 } true

/-! ## The small generator -/

/-- `struct ranctx` -/
structure Ranctx where
  a : Word
  b : Word
  c : Word
  d : Word
  deriving DecidableEq

def rot (x : Word) (k : Nat) : Word := (x <<< k) ||| (x >>> (32 - k))

def ranval (x : Ranctx) : Word × Ranctx :=
  let e := x.a - rot x.b 27
  let a := x.b ^^^ rot x.c 17
  let b := x.c + x.d
  let c := x.d + e
  let d := e + a
  (d, { a := a, b := b, c := c, d := d })

def raninit (seed : Word) : Ranctx :=
  (fun x => (ranval x).2)^[20] { a := 0xf1ea5eed, b := seed, c := seed, d := seed }

end Sundae.Ref
