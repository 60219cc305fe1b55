import Testings.PythonData
import Mathlib.Data.List.GetD
import Mathlib.Data.List.TakeWhile

/-!
# The transformation of the XOR proxies

`xor_bytes` of `udp_xor_proxy.py` and `xor_buffer` of the three C proxies, with
the key buffer and `key_len` that each `main` sets up. A remainder by zero and
a read outside the key array are faults of the C computation.
-/

set_option autoImplicit false

namespace Testings.XorProxy

open Python

/-- What a command line can pass: a string has no NUL inside. -/
structure KeyString where
  bytes : Bytes
  noNul : ∀ byte ∈ bytes, byte ≠ 0

/-- The default of every command line. -/
def KeyString.empty : KeyString := ⟨[], by nofun⟩

def keySize : Nat := 256

def strlen (string : Bytes) : Nat := (string.takeWhile (· ≠ 0)).length

/-- `strncpy(key, key_arg, sizeof(key) - 1)` into a zeroed array. -/
def keyArray (keyArg : KeyString) : Bytes :=
  let copied := keyArg.bytes.take (keySize - 1)
  copied ++ List.replicate (keySize - copied.length) 0

structure ProxyKey where
  key : Bytes
  keyLen : Nat
  deriving DecidableEq

/-- `udp_xor_proxy.c` -/
def proxyKey (keyArg : KeyString) : ProxyKey where
  key := keyArray keyArg
  keyLen := strlen (keyArray keyArg)

/-- `udp_xor_proxy_multi.c` -/
def multiKey (keyArg : KeyString) : ProxyKey where
  key := keyArray keyArg
  keyLen := strlen keyArg.bytes

/-- `udp_xor_proxy_multi_cleanup.c` -/
def multiCleanupKey (keyArg : KeyString) : ProxyKey where
  key := keyArray keyArg
  keyLen := strlen keyArg.bytes

inductive Fault where
  | remainderByZero
  | keyOutOfRange
  deriving DecidableEq

/-- `key[i % key_len]` -/
def keyByte (key : ProxyKey) (i : Nat) : Except Fault (BitVec 8) :=
  if key.keyLen = 0 then .error .remainderByZero
  else
    match key.key[i % key.keyLen]? with
    | some byte => .ok byte
    | none => .error .keyOutOfRange

/-- The turns of `xor_buffer` from index `i` on. -/
def xorFrom (key : ProxyKey) : Nat → Bytes → Except Fault Bytes
  | _, [] => .ok []
  | i, byte :: rest => do
      let k ← keyByte key i
      let rest ← xorFrom key (i + 1) rest
      pure ((byte ^^^ k) :: rest)

def xorBuffer (buf : Bytes) (key : ProxyKey) : Except Fault Bytes := xorFrom key 0 buf

/-- The turns of the generator expression in `xor_bytes` from index `i` on. -/
def xorEnumerate (key : Bytes) : Nat → Bytes → Py Bytes
  | _, [] => .ok []
  | i, byte :: rest => do
      let k ← index key (i % key.length)
      let rest ← xorEnumerate key (i + 1) rest
      pure ((byte ^^^ BitVec.ofNat 8 k) :: rest)

def xorBytes (data key : Bytes) : Py Bytes :=
  if key = [] then .ok data else xorEnumerate key 0 data

def mask (stream : Nat → BitVec 8) : Nat → Bytes → Bytes
  | _, [] => []
  | i, byte :: rest => (byte ^^^ stream i) :: mask stream (i + 1) rest

theorem mask_mask (stream : Nat → BitVec 8) (i : Nat) (data : Bytes) :
    mask stream i (mask stream i data) = data := by
  induction data generalizing i with
  | nil => rfl
  | cons byte rest ih =>
      simp only [mask, ih, List.cons.injEq, and_true]
      rw [BitVec.xor_assoc, BitVec.xor_self, BitVec.xor_zero]

theorem mask_length (stream : Nat → BitVec 8) (i : Nat) (data : Bytes) :
    (mask stream i data).length = data.length := by
  induction data generalizing i with
  | nil => rfl
  | cons byte rest ih => simp only [mask, List.length_cons, ih]

theorem mask_get (stream : Nat → BitVec 8) (data : Bytes) (i j : Nat) :
    (mask stream i data)[j]? = data[j]?.map (· ^^^ stream (i + j)) := by
  induction data generalizing i j with
  | nil => rfl
  | cons byte rest ih =>
      cases j with
      | zero => rfl
      | succ j =>
          simp only [mask, List.getElem?_cons_succ, ih]
          rw [Nat.add_right_comm, Nat.add_assoc]

/-- The byte of the key that belongs to a position of the datagram. -/
def keyStream (key : Bytes) (i : Nat) : BitVec 8 := key.getD (i % key.length) 0

theorem xor_from_mask {key : ProxyKey} {stream : Nat → BitVec 8} (data : Bytes) (i : Nat)
    (reads : ∀ j < i + data.length, keyByte key j = .ok (stream j)) :
    xorFrom key i data = .ok (mask stream i data) := by
  induction data generalizing i with
  | nil => rfl
  | cons byte rest ih =>
      have head := reads i (by simp)
      have tail := ih (i + 1) fun j bound => reads j (by simp only [List.length_cons]; omega)
      simp only [xorFrom, head, tail, mask]
      rfl

theorem xor_enumerate_mask {key : Bytes} (nonempty : key ≠ []) (data : Bytes) (i : Nat) :
    xorEnumerate key i data = .ok (mask (keyStream key) i data) := by
  induction data generalizing i with
  | nil => rfl
  | cons byte rest ih =>
      have inside : i % key.length < key.length := Nat.mod_lt _ (List.length_pos_of_ne_nil nonempty)
      have read : keyStream key i = key[i % key.length] := List.getD_eq_getElem _ _ inside
      simp only [xorEnumerate, index_eq inside, ok_bind, ih, mask, read, BitVec.ofNat_toNat,
        BitVec.setWidth_eq]
      rfl

theorem xor_from_fails {key : ProxyKey} (noKey : key.keyLen = 0) {data : Bytes} (some : data ≠ [])
    (i : Nat) : xorFrom key i data = .error .remainderByZero := by
  cases data with
  | nil => exact absurd rfl some
  | cons byte rest =>
      have failed : keyByte key i = .error .remainderByZero := if_pos noKey
      simp only [xorFrom, failed]
      rfl

/-- A buffer that is transformed was transformed byte by byte. -/
theorem xor_from_get {key : ProxyKey} {data out : Bytes} {i j : Nat} {byte : BitVec 8}
    (done : xorFrom key i data = .ok out) (at_j : data[j]? = some byte) :
    ∃ k, keyByte key (i + j) = .ok k ∧ out[j]? = some (byte ^^^ k) := by
  induction data generalizing i j out with
  | nil => simp at at_j
  | cons first rest ih =>
      simp only [xorFrom] at done
      cases read : keyByte key i with
      | error fault =>
          rw [read] at done
          cases done
      | ok k =>
          cases later : xorFrom key (i + 1) rest with
          | error fault =>
              rw [read, later] at done
              cases done
          | ok tail =>
              rw [read, later] at done
              cases done
              cases j with
              | zero =>
                  cases at_j
                  exact ⟨k, read, rfl⟩
              | succ j =>
                  obtain ⟨k', read', out'⟩ := ih later at_j
                  exact ⟨k', by rwa [Nat.add_right_comm] at read', out'⟩

theorem strlen_key (keyArg : KeyString) : strlen keyArg.bytes = keyArg.bytes.length := by
  rw [strlen, List.takeWhile_eq_self_iff.mpr]
  intro byte member
  exact decide_eq_true (keyArg.noNul byte member)

theorem copied_length (keyArg : KeyString) :
    (keyArg.bytes.take (keySize - 1)).length = min 255 keyArg.bytes.length :=
  List.length_take

theorem strlen_key_array (keyArg : KeyString) :
    strlen (keyArray keyArg) = min 255 keyArg.bytes.length := by
  have noNul : ∀ byte ∈ keyArg.bytes.take (keySize - 1), decide (byte ≠ 0) = true := by
    intro byte member
    exact decide_eq_true (keyArg.noNul byte (List.mem_of_mem_take member))
  have copied := copied_length keyArg
  obtain ⟨rest, padding⟩ : ∃ rest, keySize - (keyArg.bytes.take (keySize - 1)).length = rest + 1 :=
    ⟨255 - (keyArg.bytes.take (keySize - 1)).length, by unfold keySize at *; omega⟩
  rw [strlen, keyArray, List.takeWhile_append_of_pos noNul, padding, List.replicate_succ,
    List.takeWhile_cons_of_neg (by decide), List.append_nil, copied]

/-- The array holds the key up to its last place. -/
theorem key_array_get {keyArg : KeyString} {i : Nat} (inside : i < keyArg.bytes.length)
    (room : i < 255) : (keyArray keyArg)[i]? = some keyArg.bytes[i] := by
  have copied := copied_length keyArg
  have taken : i < keySize - 1 := room
  rw [keyArray, List.getElem?_append_left (by omega), List.getElem?_take_of_lt taken,
    List.getElem?_eq_getElem inside]

/-- The last place is always the terminating NUL. -/
theorem key_array_last {keyArg : KeyString} (long : 255 < keyArg.bytes.length) :
    (keyArray keyArg)[255]? = some 0 := by
  have copied := copied_length keyArg
  have length : (keyArg.bytes.take (keySize - 1)).length = 255 := by omega
  rw [keyArray, List.getElem?_append_right (by omega), length]
  rfl

theorem key_byte_eq {key : ProxyKey} {i : Nat} {byte : BitVec 8} (some : key.keyLen ≠ 0)
    (read : key.key[i % key.keyLen]? = .some byte) : keyByte key i = .ok byte := by
  rw [keyByte, if_neg some, read]

theorem key_stream_eq {key : Bytes} {i : Nat} (inside : i % key.length < key.length) :
    keyStream key i = key[i % key.length] :=
  List.getD_eq_getElem _ _ inside

/-- `udp_xor_proxy.c` reads what Python reads, as long as nothing of the key
beyond its 255th byte is needed. -/
theorem proxy_key_byte {keyArg : KeyString} (nonempty : keyArg.bytes ≠ []) {i : Nat}
    (short : keyArg.bytes.length ≤ 255 ∨ i < 255) :
    keyByte (proxyKey keyArg) i = .ok (keyStream keyArg.bytes i) := by
  have positive := List.length_pos_of_ne_nil nonempty
  have inside : i % keyArg.bytes.length < keyArg.bytes.length := Nat.mod_lt _ positive
  have length : (proxyKey keyArg).keyLen = min 255 keyArg.bytes.length := strlen_key_array keyArg
  rw [key_stream_eq inside]
  apply key_byte_eq (by omega)
  rw [length]
  rcases short with whole | early
  · rw [Nat.min_eq_right whole]
    exact key_array_get inside (by omega)
  · by_cases whole : keyArg.bytes.length ≤ 255
    · rw [Nat.min_eq_right whole]
      exact key_array_get inside (by omega)
    · have place : i % keyArg.bytes.length = i := Nat.mod_eq_of_lt (by omega)
      simp only [place]
      rw [Nat.min_eq_left (by omega), Nat.mod_eq_of_lt early]
      exact key_array_get (by omega) early

theorem multi_key_byte {keyArg : KeyString} (nonempty : keyArg.bytes ≠ []) {i : Nat}
    (short : keyArg.bytes.length ≤ 255 ∨ i < 255) :
    keyByte (multiKey keyArg) i = .ok (keyStream keyArg.bytes i) := by
  have positive := List.length_pos_of_ne_nil nonempty
  have inside : i % keyArg.bytes.length < keyArg.bytes.length := Nat.mod_lt _ positive
  have length : (multiKey keyArg).keyLen = keyArg.bytes.length := strlen_key keyArg
  have place : i % keyArg.bytes.length < 255 := by
    rcases short with whole | early
    · omega
    · exact Nat.lt_of_le_of_lt (Nat.mod_le _ _) early
  rw [key_stream_eq inside]
  apply key_byte_eq (by omega)
  rw [length]
  exact key_array_get inside place

/-- Nothing faults, all four yield the same bytes, and a second pass undoes the first. -/
def ProxiesAgree (keyArg : KeyString) (datagram : Bytes) : Prop :=
  ∃ out, xorBytes datagram keyArg.bytes = .ok out ∧ xorBytes out keyArg.bytes = .ok datagram ∧
    ∀ setUp ∈ [proxyKey, multiKey, multiCleanupKey],
      xorBuffer datagram (setUp keyArg) = .ok out ∧ xorBuffer out (setUp keyArg) = .ok datagram

theorem proxies_agree_short {keyArg : KeyString} (nonempty : keyArg.bytes ≠ []) {datagram : Bytes}
    (short : keyArg.bytes.length ≤ 255 ∨ datagram.length ≤ 255) :
    ProxiesAgree keyArg datagram := by
  have early : ∀ j < datagram.length, keyArg.bytes.length ≤ 255 ∨ j < 255 := by
    intro j bound
    exact short.imp_right fun few => by omega
  refine ⟨mask (keyStream keyArg.bytes) 0 datagram, ?_, ?_, ?_⟩
  · rw [xorBytes, if_neg nonempty, xor_enumerate_mask nonempty]
  · rw [xorBytes, if_neg nonempty, xor_enumerate_mask nonempty, mask_mask]
  · intro setUp member
    have reads : ∀ j < datagram.length,
        keyByte (setUp keyArg) j = .ok (keyStream keyArg.bytes j) := by
      intro j bound
      simp only [List.mem_cons, List.not_mem_nil, or_false] at member
      rcases member with rfl | rfl | rfl
      · exact proxy_key_byte nonempty (early j bound)
      · exact multi_key_byte nonempty (early j bound)
      · exact multi_key_byte nonempty (early j bound)
    constructor
    · exact xor_from_mask datagram 0 fun j bound => reads j (by omega)
    · have back := xor_from_mask (mask (keyStream keyArg.bytes) 0 datagram) 0
        fun j bound => reads j (by rw [mask_length] at bound; omega)
      rwa [mask_mask] at back

/-- An empty key divides by zero. -/
theorem empty_key_faults {keyArg : KeyString} (empty : keyArg.bytes = []) {datagram : Bytes}
    (some : datagram ≠ []) : ¬ProxiesAgree keyArg datagram := by
  rintro ⟨out, _, _, all⟩
  have transformed := (all multiKey (by simp)).1
  have noKey : (multiKey keyArg).keyLen = 0 := by
    rw [multiKey, strlen_key, empty]
    rfl
  rw [xorBuffer, xor_from_fails noKey some] at transformed
  cases transformed

/-- At index 255 of a long datagram `udp_xor_proxy_multi.c` takes the NUL of the
array for a byte of the key. -/
theorem long_key_differs {keyArg : KeyString} (longKey : 255 < keyArg.bytes.length)
    {datagram : Bytes} (long : 255 < datagram.length) : ¬ProxiesAgree keyArg datagram := by
  rintro ⟨out, python, _, all⟩
  have nonempty : keyArg.bytes ≠ [] := List.ne_nil_of_length_pos (by omega)
  have byte : datagram[255]? = some datagram[255] := List.getElem?_eq_getElem long
  obtain ⟨k, read, multi⟩ := xor_from_get (all multiKey (by simp)).1 byte
  have length : (multiKey keyArg).keyLen = keyArg.bytes.length := strlen_key keyArg
  have nul : keyByte (multiKey keyArg) 255 = .ok 0 := by
    apply key_byte_eq (by omega)
    rw [length, Nat.mod_eq_of_lt longKey]
    exact key_array_last longKey
  cases nul.symm.trans ((Nat.zero_add 255) ▸ read)
  have place : 255 % keyArg.bytes.length = 255 := Nat.mod_eq_of_lt longKey
  have inside : 255 % keyArg.bytes.length < keyArg.bytes.length := by omega
  have different : keyStream keyArg.bytes 255 ≠ 0 := by
    rw [key_stream_eq inside]
    exact keyArg.noNul _ (List.getElem_mem inside)
  rw [xorBytes, if_neg nonempty, xor_enumerate_mask nonempty] at python
  cases python
  rw [mask_get, byte, Option.map_some, Option.some_inj, Nat.zero_add] at multi
  apply different
  calc keyStream keyArg.bytes 255
      = datagram[255] ^^^ (datagram[255] ^^^ keyStream keyArg.bytes 255) := by
        rw [← BitVec.xor_assoc, BitVec.xor_self, BitVec.zero_xor]
    _ = datagram[255] ^^^ (datagram[255] ^^^ 0) := by rw [multi]
    _ = 0 := by rw [← BitVec.xor_assoc, BitVec.xor_self, BitVec.zero_xor]

theorem proxies_agree_nothing (keyArg : KeyString) : ProxiesAgree keyArg [] := by
  have python : xorBytes [] keyArg.bytes = .ok [] := by
    unfold xorBytes
    split_ifs <;> rfl
  exact ⟨[], python, python, fun setUp _ => ⟨rfl, rfl⟩⟩

theorem proxies_agree_iff (keyArg : KeyString) (datagram : Bytes) :
    ProxiesAgree keyArg datagram ↔
      datagram = [] ∨
        keyArg.bytes ≠ [] ∧ (keyArg.bytes.length ≤ 255 ∨ datagram.length ≤ 255) := by
  constructor
  · intro agree
    by_cases nothing : datagram = []
    · exact .inl nothing
    · refine .inr ⟨fun empty => empty_key_faults empty nothing agree, ?_⟩
      by_contra long
      rw [not_or, not_le, not_le] at long
      exact long_key_differs long.1 long.2 agree
  · rintro (rfl | ⟨nonempty, short⟩)
    · exact proxies_agree_nothing keyArg
    · exact proxies_agree_short nonempty short

/-- The default key and a datagram of one byte. -/
theorem default_key_faults :
    ¬∀ (keyArg : KeyString) (datagram : Bytes), ProxiesAgree keyArg datagram := by
  intro always
  exact empty_key_faults rfl (List.cons_ne_nil 0 []) (always KeyString.empty [0])

end Testings.XorProxy
