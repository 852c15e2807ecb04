import QueryPlan.Text.Quoted

/-! Digests of 256 bits. The bytes are cut into chunks of 1024, a chunk into blocks of 64; the
blocks of a chunk are chained by a keyless permutation of 32-bit words, and the chunks are the
leaves of a binary tree. The last compression, that of the root, carries a flag of its own, so a
node is kept open until it is known whether it is the root. -/

namespace QueryPlan

structure Digest where
  bytes : Vector UInt8 32
deriving DecidableEq

namespace Digest

abbrev Words (n : Nat) := Vector UInt32 n

def initial : Words 8 := #v[
  0x6A09E667, 0xBB67AE85, 0x3C6EF372, 0xA54FF53A, 0x510E527F, 0x9B05688C, 0x1F83D9AB, 0x5BE0CD19]

def schedule : Vector (Fin 16) 16 := #v[2, 6, 3, 10, 7, 0, 4, 13, 1, 11, 12, 5, 9, 14, 15, 8]

def permuted (m : Words 16) : Words 16 := schedule.map fun i => m[i]

def rotated (w : UInt32) (n : UInt32) : UInt32 := (w >>> n) ||| (w <<< (32 - n))

def stir (a b c d : Fin 16) (x y : UInt32) (v : Words 16) : Words 16 :=
  let va := v[a] + v[b] + x
  let vd := rotated (v[d] ^^^ va) 16
  let vc := v[c] + vd
  let vb := rotated (v[b] ^^^ vc) 12
  let va := va + vb + y
  let vd := rotated (vd ^^^ va) 8
  let vc := vc + vd
  let vb := rotated (vb ^^^ vc) 7
  (((v.set a va).set b vb).set c vc).set d vd

def roundOf (m : Words 16) (v : Words 16) : Words 16 :=
  v |> stir 0 4 8 12 m[0] m[1]
    |> stir 1 5 9 13 m[2] m[3]
    |> stir 2 6 10 14 m[4] m[5]
    |> stir 3 7 11 15 m[6] m[7]
    |> stir 0 5 10 15 m[8] m[9]
    |> stir 1 6 11 12 m[10] m[11]
    |> stir 2 7 8 13 m[12] m[13]
    |> stir 3 4 9 14 m[14] m[15]

def rounds : Nat → Words 16 → Words 16 → Words 16
  | 0, _, v => v
  | n + 1, m, v => rounds n (permuted m) (roundOf m v)

structure Node where
  chaining : Words 8
  block : Words 16
  position : Nat
  /-- Bytes of the block that are input and not padding. -/
  length : Nat
  flags : UInt32

namespace Node

def firstBlock : UInt32 := 1
def lastBlock : UInt32 := 2
def inner : UInt32 := 4
def root : UInt32 := 8

def compressed (n : Node) : Words 8 :=
  let tail : Words 8 := #v[initial[0], initial[1], initial[2], initial[3],
    UInt32.ofNat n.position, UInt32.ofNat (n.position / UInt32.size), UInt32.ofNat n.length,
    n.flags]
  let v := rounds 7 n.block (n.chaining ++ tail)
  Vector.ofFn fun i : Fin 8 => v[i.val] ^^^ v[i.val + 8]

def above (l r : Node) : Node :=
  ⟨initial, l.compressed ++ r.compressed, 0, 64, inner⟩

end Node

def wordsOf (bytes : List UInt8) : Words 16 :=
  let padded := (bytes ++ List.replicate (64 - bytes.length) 0).toArray
  Vector.ofFn fun i : Fin 16 =>
    let byte (k : Nat) : UInt32 := (padded.getD (4 * i.val + k) 0).toUInt32
    byte 0 ||| (byte 1 <<< 8) ||| (byte 2 <<< 16) ||| (byte 3 <<< 24)

/-- Runs of `n + 1` bytes, the last one maybe shorter; at least one, if only the empty one. -/
def runs (n : Nat) (bytes : List UInt8) : List (List UInt8) :=
  match h : bytes.drop (n + 1) with
  | [] => [bytes]
  | b :: rest => bytes.take (n + 1) :: runs n (b :: rest)
termination_by bytes.length
decreasing_by
  have := congrArg List.length h
  simp only [List.length_drop, List.length_cons] at this ⊢
  omega

def chain (position : Nat) (cv : Words 8) (flags : UInt32) : List (List UInt8) → Node
  | [] => ⟨cv, wordsOf [], position, 0, flags ||| Node.lastBlock⟩
  | [b] => ⟨cv, wordsOf b, position, b.length, flags ||| Node.lastBlock⟩
  | b :: rest => chain position (Node.compressed ⟨cv, wordsOf b, position, b.length, flags⟩) 0 rest

def chunk (position : Nat) (bytes : List UInt8) : Node :=
  chain position initial Node.firstBlock (runs 63 bytes)

def paired : List Node → List Node
  | l :: r :: rest => Node.above l r :: paired rest
  | ns => ns

theorem length_paired (ns : List Node) : (paired ns).length = (ns.length + 1) / 2 := by
  fun_induction paired ns with
  | case1 l r rest ih => simp only [List.length_cons, ih]; omega
  | case2 ns h =>
    match ns, h with
    | [], _ => rfl
    | [_], _ => simp
    | a :: b :: rest, h => exact absurd rfl (h a b rest)

def top (n : Node) (ns : List Node) : Node :=
  match _h : paired (n :: ns) with
  | [] => n
  | [m] => m
  | m :: k :: rest => top m (k :: rest)
termination_by ns.length
decreasing_by
  have := congrArg List.length _h
  simp only [length_paired, List.length_cons] at this ⊢
  omega

def ofBytes (bytes : List UInt8) : Digest :=
  let nodes := (runs 1023 bytes).mapIdx chunk
  let n := match nodes with
    | [] => chunk 0 []
    | n :: ns => top n ns
  let words := { n with flags := n.flags ||| Node.root }.compressed
  ⟨Vector.ofFn fun i : Fin 32 =>
    (words.get ⟨i.val / 4, by omega⟩ >>> UInt32.ofNat (8 * (i.val % 4))).toUInt8⟩

def ofText (s : String) : Digest := ofBytes s.toUTF8.toList

def hex (d : Digest) : String :=
  String.ofList (d.bytes.toList.flatMap fun b =>
    [Nat.digitChar (b.toNat / 16), Nat.digitChar (b.toNat % 16)])

end Digest
end QueryPlan
