import Drive9.Lib.Url

/-!
This module contains the unpadded URL alphabet of base64, as `base64.RawURLEncoding` encodes and
decodes it.
-/

namespace Base64

open List Option

def digit (n : Nat) : UInt8 :=
  if n < 26 then UInt8.ofNat (65 + n)
  else if n < 52 then UInt8.ofNat (71 + n)
  else if n < 62 then UInt8.ofNat (n - 4)
  else if n = 62 then 0x2d
  else 0x5f

def value (b : UInt8) : Option Nat := (List.range 64).find? (digit · = b)

def isNewline (b : UInt8) : Bool := b = 0x0a || b = 0x0d

def toSextets : Octets → List Nat
  | a :: b :: c :: rest =>
    a.toNat / 4 :: (a.toNat % 4 * 16 + b.toNat / 16) :: (b.toNat % 16 * 4 + c.toNat / 64) :: c.toNat % 64
      :: toSextets rest
  | [a, b] => [a.toNat / 4, a.toNat % 4 * 16 + b.toNat / 16, b.toNat % 16 * 4]
  | [a] => [a.toNat / 4, a.toNat % 4 * 16]
  | [] => []

def ofSextets : List Nat → Option Octets
  | a :: b :: c :: d :: rest =>
    (ofSextets rest).map fun bytes =>
      UInt8.ofNat (a * 4 + b / 16) :: UInt8.ofNat (b % 16 * 16 + c / 4) :: UInt8.ofNat (c % 4 * 64 + d) :: bytes
  | [a, b, c] => some [UInt8.ofNat (a * 4 + b / 16), UInt8.ofNat (b % 16 * 16 + c / 4)]
  | [a, b] => some [UInt8.ofNat (a * 4 + b / 16)]
  | [_] => none
  | [] => some []

def encode (bytes : Octets) : Octets := (toSextets bytes).map digit

def decode (s : Octets) : Option Octets := ((s.filter (!isNewline ·)).mapM value).bind ofSextets

theorem value_digit : ∀ n < 64, value (digit n) = some n := by
  decide +kernel

theorem digit_ne : ∀ n < 64, digit n ≠ 0x2e ∧ isNewline (digit n) = false := by
  decide +kernel

theorem value_dot : value 0x2e = none := by
  decide +kernel

variable {bytes s : Octets}

theorem lt_of_mem_toSextets (bytes) : ∀ n ∈ toSextets bytes, n < 64 := by
  induction bytes using toSextets.induct with
  | case1 a b c rest ih =>
    have ha := a.toNat_lt
    have hb := b.toNat_lt
    have hc := c.toNat_lt
    simp only [toSextets, forall_mem_cons]
    refine ⟨?_, ?_, ?_, ?_, ih⟩
    all_goals omega
  | case2 a b =>
    have ha := a.toNat_lt
    have hb := b.toNat_lt
    simp only [toSextets, forall_mem_cons]
    refine ⟨?_, ?_, ?_, forall_mem_nil _⟩
    all_goals omega
  | case3 a =>
    have ha := a.toNat_lt
    simp only [toSextets, forall_mem_cons]
    refine ⟨?_, ?_, forall_mem_nil _⟩
    all_goals omega
  | case4 => exact forall_mem_nil _

theorem mem_encode (h : b ∈ encode bytes) : b ≠ 0x2e ∧ isNewline b = false := by
  obtain ⟨n, hn, rfl⟩ := mem_map.mp h
  exact digit_ne n (lt_of_mem_toSextets bytes n hn)

theorem dot_not_mem_encode (bytes)
    : 0x2e ∉ encode bytes := fun h => (mem_encode h).1 rfl

theorem ofNat_of_eq (h : n = b.toNat) : UInt8.ofNat n = b := by
  rw [h, UInt8.ofNat_toNat]

theorem ofSextets_toSextets (bytes) : ofSextets (toSextets bytes) = some bytes := by
  induction bytes using toSextets.induct with
  | case1 a b c rest ih =>
    have hb := b.toNat_lt
    have hc := c.toNat_lt
    simp only [toSextets, ofSextets, ih, map_some]
    rw [ofNat_of_eq (b := a), ofNat_of_eq (b := b), ofNat_of_eq (b := c)]
    all_goals omega
  | case2 a b =>
    have hb := b.toNat_lt
    simp only [toSextets, ofSextets]
    rw [ofNat_of_eq (b := a), ofNat_of_eq (b := b)]
    all_goals omega
  | case3 a =>
    simp only [toSextets, ofSextets]
    rw [ofNat_of_eq (b := a)]
    omega
  | case4 => rfl

theorem mapM_value_digit {l : List Nat} (h : ∀ n ∈ l, n < 64)
    : (l.map digit).mapM value = some l := by
  induction l with
  | nil => rfl
  | cons n l ih =>
    rw [forall_mem_cons] at h
    simp [value_digit n h.1, ih h.2]

theorem filter_of_subset_encode (h : s ⊆ encode bytes) : s.filter (!isNewline ·) = s := by
  rw [filter_eq_self]
  intro b hb
  simp [(mem_encode (h hb)).2]

theorem decode_encode (bytes) : decode (encode bytes) = some bytes := by
  unfold decode
  rw [filter_of_subset_encode (List.Subset.refl _)]
  unfold encode
  rw [mapM_value_digit (lt_of_mem_toSextets bytes), bind_some, ofSextets_toSextets]

theorem mapM_value_eq_none (h : 0x2e ∈ s) : s.mapM value = none := by
  induction s with
  | nil => contradiction
  | cons b s ih =>
    cases mem_cons.mp h with
    | inl heq => simp [← heq, value_dot]
    | inr hmem =>
      rw [mapM_cons, ih hmem]
      cases value b <;> rfl

theorem dot_not_mem_of_decode (h : decode s = some bytes) : 0x2e ∉ s := by
  intro hdot
  unfold decode at h
  rw [mapM_value_eq_none (mem_filter.mpr ⟨hdot, rfl⟩)] at h
  contradiction

theorem length_ofSextets (h : ofSextets l = some bytes) : bytes.length = l.length * 3 / 4 := by
  induction l using ofSextets.induct generalizing bytes with
  | case1 a b c d rest ih =>
    simp only [ofSextets] at h
    obtain ⟨tail, htail, rfl⟩ := map_eq_some_iff.mp h
    have hlen := ih htail
    simp only [length_cons]
    omega
  | case4 => contradiction
  | _ =>
    cases h
    simp

theorem length_mapM (h : s.mapM value = some l) : l.length = s.length := by
  induction s generalizing l with
  | nil =>
    cases h
    rfl
  | cons b s ih =>
    simp only [List.mapM_cons, Option.pure_def, Option.bind_eq_bind, Option.bind_eq_some_iff] at h
    obtain ⟨n, hn, tail, htail, heq⟩ := h
    cases heq
    simp [ih htail]

theorem length_of_decode (h : decode s = some bytes) (hs : s.filter (!isNewline ·) = s)
    : bytes.length = s.length * 3 / 4 := by
  unfold decode at h
  rw [hs] at h
  obtain ⟨l, hl, hbytes⟩ := bind_eq_some_iff.mp h
  rw [length_ofSextets hbytes, length_mapM hl]

theorem length_encode (bytes) : (encode bytes).length = (bytes.length * 4 + 2) / 3 := by
  unfold encode
  rw [length_map]
  induction bytes using toSextets.induct with
  | case1 a b c rest ih =>
    simp only [toSextets, length_cons, ih]
    omega
  | _ => simp [toSextets]

/--
A front part of an encoded text that decodes to as many bytes as were encoded is the whole of it.
-/
theorem eq_of_prefix_encode (hs : s <+: encode bytes) (h : decode s = some sig)
    (hlen : sig.length = bytes.length)
    : s = encode bytes := by
  have hfilter := filter_of_subset_encode hs.subset
  have hsig := length_of_decode h hfilter
  have hall := length_encode bytes
  apply hs.eq_of_length_le
  omega

end Base64
