import DoubleDecker.Broker.HTable
import DoubleDecker.Library.Absorb

/-!
# Hash/XXHash — the hash of the tables

`XXH32` of a text in one call, and the state that takes the text in pieces.  `htable.c` uses both:
the name tables hash in one call, the tables by socket id and cookie feed the two frames one after
the other.  The broker's model has one function for both; here is why it may.

Integers are read little-endian, as the code does on every machine.
-/

namespace DoubleDecker

open Absorb

/-! ## `xxhash.c` -/

def prime32_1 : UInt32 := 2654435761
def prime32_2 : UInt32 := 2246822519
def prime32_3 : UInt32 := 3266489917
def prime32_4 : UInt32 := 668265263
def prime32_5 : UInt32 := 374761393

/-- `XXH_rotl32`. -/
def xxhRotl32 (x r : UInt32) : UInt32 := x <<< r ||| x >>> (32 - r)

/-- `v1` to `v4`. -/
structure Lanes where
  v1 : UInt32
  v2 : UInt32
  v3 : UInt32
  v4 : UInt32
  deriving DecidableEq

/-- The lanes before the first block. -/
def Lanes.start (seed : UInt32) : Lanes :=
  ⟨seed + prime32_1 + prime32_2, seed + prime32_2, seed + 0, seed - prime32_1⟩

/-- `XXH_readLE32`; the callers have four bytes at `p`. -/
def xxhReadLE32 (p : List UInt8) : UInt32 := (readU32 p).getD 0

/-- What a word does to its lane. -/
def laneRound (v word : UInt32) : UInt32 := xxhRotl32 (v + word * prime32_2) 13 * prime32_1

/-- The body of the loops: 16 bytes at `p`. -/
def stripe (v : Lanes) (p : List UInt8) : Lanes :=
  ⟨laneRound v.v1 (xxhReadLE32 p), laneRound v.v2 (xxhReadLE32 (p.drop 4)),
    laneRound v.v3 (xxhReadLE32 (p.drop 8)), laneRound v.v4 (xxhReadLE32 (p.drop 12))⟩

/-- `h32` of the lanes. -/
def Lanes.merge (v : Lanes) : UInt32 :=
  xxhRotl32 v.v1 1 + xxhRotl32 v.v2 7 + xxhRotl32 v.v3 12 + xxhRotl32 v.v4 18

/-- The bytes behind the last full block: four at a time, then one at a time. -/
def xxhTail (h32 : UInt32) : List UInt8 → UInt32
  | a :: b :: c :: d :: p =>
    xxhTail (xxhRotl32 (h32 + xxhReadLE32 [a, b, c, d] * prime32_3) 17 * prime32_4) p
  | p => p.foldl (fun h32 b => xxhRotl32 (h32 + b.toUInt32 * prime32_5) 11 * prime32_1) h32

/-- The last mixing. -/
def xxhAvalanche (h32 : UInt32) : UInt32 :=
  let h32 := (h32 ^^^ h32 >>> 15) * prime32_2
  let h32 := (h32 ^^^ h32 >>> 13) * prime32_3
  h32 ^^^ h32 >>> 16

/-- `XXH32`. -/
def xxh32 (input : List UInt8) (seed : UInt32) : UInt32 :=
  let (v, p) := blocks 16 stripe (Lanes.start seed) input
  let h32 := if 16 ≤ input.length then v.merge else seed + prime32_5
  xxhAvalanche (xxhTail (h32 + UInt32.ofNat input.length) p)

/-- `XXH_istate32_t`; `mem` is the first `memsize` bytes of `mem32`. -/
structure XXHState where
  totalLen : UInt64
  seed : UInt32
  v : Lanes
  mem : List UInt8

/-- `XXH32_reset`. -/
def xxh32Reset (seed : UInt32) : XXHState := ⟨0, seed, Lanes.start seed, []⟩

/-- The bytes of an earlier update are filled up to a block: the state after it and `p`. -/
def fillMem (state : XXHState) (input : List UInt8) : XXHState × List UInt8 :=
  let missing := 16 - state.mem.length
  ({ state with v := stripe state.v (state.mem ++ input.take missing), mem := [] },
    input.drop missing)

/-- The blocks at `p`, and the copy of what is behind them. -/
def takeBlocks (state : XXHState) (p : List UInt8) : XXHState :=
  let (v, p) := blocks 16 stripe state.v p
  if p ≠ [] then { state with v := v, mem := p } else { state with v := v }

/-- `XXH32_update`. -/
def xxh32Update (state : XXHState) (input : List UInt8) : XXHState :=
  let state := { state with totalLen := state.totalLen + UInt64.ofNat input.length }
  if state.mem.length + input.length < 16 then { state with mem := state.mem ++ input }
  else if state.mem ≠ [] then
    let (state, p) := fillMem state input
    takeBlocks state p
  else takeBlocks state input

/-- `XXH32_digest`. -/
def xxh32Digest (state : XXHState) : UInt32 :=
  let h32 := if 16 ≤ state.totalLen then state.v.merge else state.seed + prime32_5
  xxhAvalanche (xxhTail (h32 + state.totalLen.toUInt32) state.mem)

/-- The hash in one call; the published values. -/
example : xxh32 [] 0 = 0x02cc5d05 ∧ xxh32 (CStr.ascii "abc") 0 = 0x32d153ff ∧
    xxh32 (CStr.ascii "Nobody inspects the spammish repetition") 0 = 0xe2293b2f := by decide +kernel

/-! ## In pieces -/

/-- The state has taken this text. -/
structure XXHState.Took (start : UInt32) (l : List UInt8) (state : XXHState) : Prop where
  totalLen : state.totalLen = UInt64.ofNat l.length
  seed : state.seed = start
  blocks : blocks 16 stripe (Lanes.start start) l = (state.v, state.mem)

theorem took_reset (seed : UInt32) : (xxh32Reset seed).Took seed [] :=
  ⟨rfl, rfl, blocks_of_lt _ (by decide)⟩

/-- Without bytes of an earlier update the lanes and the buffer are those of the blocks. -/
theorem takeBlocks_eq {state : XXHState} (hmem : state.mem = []) (p : List UInt8) :
    ((takeBlocks state p).v, (takeBlocks state p).mem) = blocks 16 stripe state.v p := by
  unfold takeBlocks
  by_cases hp : (blocks 16 stripe state.v p).2 = []
  · simp only [if_neg (not_not.mpr hp), hmem]
    rw [← hp]
  · simp only [if_pos hp]

/-- Bytes of an earlier update and a new piece, when they fill a block. -/
theorem blocks_fillMem {state : XXHState} (hmem : state.mem.length < 16) {input : List UInt8}
    (hfull : 16 ≤ state.mem.length + input.length) :
    blocks 16 stripe state.v (state.mem ++ input) =
      blocks 16 stripe (fillMem state input).1.v (fillMem state input).2 := by
  have hblock : (state.mem ++ input.take (16 - state.mem.length)).length = 16 := by
    rw [List.length_append, List.length_take]
    omega
  have hsplit : state.mem ++ input = state.mem ++ input.take (16 - state.mem.length) ++
      input.drop (16 - state.mem.length) := by
    rw [List.append_assoc, List.take_append_drop]
  rw [hsplit, blocks_block_append _ hblock]
  rfl

/-- What an update makes of the lanes and the buffer. -/
theorem xxh32Update_blocks {state : XXHState} (hmem : state.mem.length < 16)
    (input : List UInt8) :
    ((xxh32Update state input).v, (xxh32Update state input).mem) =
      blocks 16 stripe state.v (state.mem ++ input) := by
  unfold xxh32Update
  by_cases hshort : state.mem.length + input.length < 16
  · rw [blocks_of_lt _ (by rwa [List.length_append])]
    simp only [if_pos hshort]
  · simp only [if_neg hshort]
    by_cases hempty : state.mem = []
    · simp only [if_neg (not_not.mpr hempty)]
      refine (takeBlocks_eq ?_ input).trans ?_
      · exact hempty
      · rw [hempty, List.nil_append]
    · simp only [if_pos hempty]
      refine (takeBlocks_eq ?_ _).trans ?_
      · rfl
      · exact (blocks_fillMem hmem (Nat.not_lt.mp hshort)).symm

theorem takeBlocks_counts (state : XXHState) (p : List UInt8) :
    (takeBlocks state p).seed = state.seed ∧ (takeBlocks state p).totalLen = state.totalLen := by
  unfold takeBlocks
  by_cases hp : (blocks 16 stripe state.v p).2 = [] <;> simp [hp]

/-- An update leaves the seed and counts the bytes. -/
theorem xxh32Update_counts (state : XXHState) (input : List UInt8) :
    (xxh32Update state input).seed = state.seed ∧
      (xxh32Update state input).totalLen = state.totalLen + UInt64.ofNat input.length := by
  unfold xxh32Update
  by_cases hshort : state.mem.length + input.length < 16
  · simp only [if_pos hshort, and_self]
  · by_cases hempty : state.mem = []
    · simp only [if_neg hshort, if_neg (not_not.mpr hempty)]
      exact takeBlocks_counts _ _
    · simp only [if_neg hshort, if_pos hempty]
      exact takeBlocks_counts _ _

/-- The bytes that wait for more stay within `mem32`. -/
theorem XXHState.Took.length_mem_lt {seed : UInt32} {l : List UInt8} {state : XXHState}
    (h : state.Took seed l) : state.mem.length < 16 := by
  have hlen : (Absorb.blocks 16 stripe (Lanes.start seed) l).2.length = l.length % 16 :=
    length_blocks _ _
  rw [h.blocks] at hlen
  rw [hlen]
  exact Nat.mod_lt _ (by decide)

theorem took_update {seed : UInt32} {l : List UInt8} {state : XXHState} (h : state.Took seed l)
    (input : List UInt8) : (xxh32Update state input).Took seed (l ++ input) := by
  obtain ⟨hseed, htotal⟩ := xxh32Update_counts state input
  refine ⟨?_, hseed.trans h.seed, ?_⟩
  · rw [htotal, h.totalLen, List.length_append, UInt64.ofNat_add]
  · rw [xxh32Update_blocks h.length_mem_lt, blocks_append, h.blocks]

theorem took_pieces (seed : UInt32) (pieces : List (List UInt8)) {l : List UInt8}
    {state : XXHState} (h : state.Took seed l) :
    (pieces.foldl xxh32Update state).Took seed (l ++ pieces.flatten) := by
  induction pieces generalizing l state with
  | nil => rwa [List.foldl_nil, List.flatten_nil, List.append_nil]
  | cons piece pieces ih =>
    rw [List.foldl_cons, List.flatten_cons, ← List.append_assoc]
    exact ih (took_update h piece)

/-- The digest of a text that was taken. -/
theorem xxh32Digest_of_took {seed : UInt32} {l : List UInt8} {state : XXHState}
    (h : state.Took seed l) (hl : l.length < 2 ^ 64) : xxh32Digest state = xxh32 l seed := by
  have hlong : (16 : UInt64) ≤ UInt64.ofNat l.length ↔ 16 ≤ l.length := by
    rw [UInt64.le_iff_toNat_le, UInt64.toNat_ofNat_of_lt' hl]
    rfl
  rw [xxh32Digest, xxh32, h.blocks, h.totalLen, h.seed, UInt64.toUInt32_ofNat']
  simp only [hlong]

/-- **Streaming is the hash in one call**: whatever pieces a text is fed in, the bytes that wait
stay within `mem32`, and the digest is the hash of the whole text. -/
theorem xxh32_streamed (seed : UInt32) (pieces : List (List UInt8))
    (hlen : pieces.flatten.length < 2 ^ 64) :
    (pieces.foldl xxh32Update (xxh32Reset seed)).mem.length < 16 ∧
      xxh32Digest (pieces.foldl xxh32Update (xxh32Reset seed)) = xxh32 pieces.flatten seed :=
  have h := took_pieces seed pieces (took_reset seed)
  ⟨h.length_mem_lt, xxh32Digest_of_took h hlen⟩

/-- A socket id of eleven bytes and a cookie: the second piece fills the first block. -/
theorem xxh32_streamed_cookie :
    ([CStr.ascii "socket id 1", [1, 2, 3, 4, 5, 6, 7, 8]].foldl xxh32Update
        (xxh32Reset 1234)).mem.length < 16 ∧
      xxh32Digest ([CStr.ascii "socket id 1", [1, 2, 3, 4, 5, 6, 7, 8]].foldl xxh32Update
        (xxh32Reset 1234)) =
        xxh32 [CStr.ascii "socket id 1", [1, 2, 3, 4, 5, 6, 7, 8]].flatten 1234 :=
  xxh32_streamed 1234 [CStr.ascii "socket id 1", [1, 2, 3, 4, 5, 6, 7, 8]] (by decide)

/-! ## The tables -/

/-- `XXHSEED`. -/
def xxhSeed : UInt32 := 1234

/-- The tables with the hash they really have. -/
def Env.withXXH32 (env : Env UInt32) : Env UInt32 :=
  { env with xxh32 := fun l => DoubleDecker.xxh32 l xxhSeed }

/-- `XXH32_reset`, the updates and `XXH32_digest`, as `htable.c` calls them. -/
def hashPieces (pieces : List (List UInt8)) : UInt32 :=
  xxh32Digest (pieces.foldl xxh32Update (xxh32Reset xxhSeed))

theorem hashPieces_eq (env : Env UInt32) {pieces : List (List UInt8)}
    (hlen : pieces.flatten.length < 2 ^ 64) :
    hashPieces pieces = env.withXXH32.xxh32 pieces.flatten :=
  xxh32Digest_of_took (took_pieces xxhSeed pieces (took_reset xxhSeed)) hlen

/-- The lookup of a client, with the two updates that `htable.c` makes. -/
theorem hashtableHasLocalNode_pieces (env : Env UInt32) (self : DdBroker UInt32)
    {sockid cookie : Frame} (hlen : sockid.length + cookie.length < 2 ^ 64) :
    hashtableHasLocalNode env.withXXH32 self sockid cookie =
      self.lclCliHt.lookup (hashPieces [sockid, cookie]) (matchLclNodeSockid sockid) := by
  have hflat : [sockid, cookie].flatten = sockid ++ cookie := by simp
  rw [hashPieces_eq env (by rwa [hflat, List.length_append]), hflat]
  rfl

end DoubleDecker
