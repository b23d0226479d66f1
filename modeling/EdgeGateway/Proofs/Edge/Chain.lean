import EdgeGateway.Proofs.Edge.Denial
import EdgeGateway.Proofs.Edge.Identity
import EdgeGateway.Proofs.Http.Readable

/-! # The chain of hops

The gateway appends its marker to the forwarded-for chain, which the client begins if there is
none. It goes by the first line of the chain, makes the new chain its only line, and cuts that line
at a fixed length. So the new chain is the old one with the marker at the end just if the old one
has one line at most, or nothing but blanks in any, and only blanks are cut off
(`extendsChain_iff`). -/

namespace EdgeGateway.Edge.Filter

open Http HeaderValue

variable {f : Filter} {client : List Char} {h : Headers} {m v : HeaderValue}

/-! ### The text of the chain -/

/-- What the chain begins with: its first line, or the client if that is missing or blank. -/
def chainStart (f : Filter) (client : List Char) (h : Headers) : List Char :=
  match (h.text? f.chainHeader).map Text.trim with
  | some (c :: cs) => c :: cs
  | _ => client

/-- The chain with the gateway at its end, before it is cut. -/
def chainText (f : Filter) (client : List Char) (h : Headers) : List Char :=
  f.chainStart client h ++ (", ".toList ++ f.config.marker.toList)

theorem forall_mem_chainText {P : Char → Prop} (hstart : ∀ c ∈ f.chainStart client h, P c)
    (hcomma : P ',') (hblank : P ' ') (hm : ∀ c ∈ f.config.marker.toList, P c) :
    ∀ c ∈ f.chainText client h, P c := by
  intro c hc
  have hsep : ", ".toList = [',', ' '] := rfl
  rw [chainText, hsep, List.mem_append, List.mem_append] at hc
  rcases hc with hc | hc | hc
  · exact hstart c hc
  · rcases List.mem_pair.mp hc with rfl | rfl
    · exact hcomma
    · exact hblank
  · exact hm c hc

theorem extendChain_eq (f : Filter) (client : List Char) (h : Headers) :
    f.extendChain client h = h.setText f.chainHeader (f.chainText client h) := by
  unfold extendChain chainText chainStart
  rcases (h.text? f.chainHeader).map Text.trim with _ | _ | ⟨c, cs⟩ <;> rfl

/-- Without a first line, or after a blank one, the client begins the chain. -/
theorem chainStart_of_blank (hread : ∀ v ∈ h.values f.chainHeader, v.text?.isSome)
    (hblank : ∀ v ∈ (h.values f.chainHeader).head?, v.all isBlankByte) :
    f.chainStart client h = client := by
  unfold chainStart
  rw [Headers.text?_eq]
  cases hlines : h.values f.chainHeader with
  | nil => rfl
  | cons v vs =>
    rw [hlines] at hread hblank
    obtain ⟨t, ht⟩ := Option.isSome_iff_exists.mp (hread v (by simp))
    have htrim : Text.trim t = [] := by
      have hv : trim v = [] := trim_eq_nil_iff.mpr (hblank v rfl)
      have ht' := trim_text ht
      rw [hv] at ht'
      exact (Option.some.inj ht').symm
    simp [ht, htrim]

/-- A line that is not blank begins the chain, without the blanks around it. -/
theorem text?_chainStart {vs : List HeaderValue} (hlines : h.values f.chainHeader = v :: vs)
    (hread : v.text?.isSome) (hblank : ¬ v.all isBlankByte) :
    text? (trim v) = some (f.chainStart client h) := by
  obtain ⟨t, ht⟩ := Option.isSome_iff_exists.mp hread
  have htrim := trim_text ht
  rw [htrim]
  unfold chainStart
  rw [Headers.text?_eq, hlines, List.head?_cons, Option.bind_some, ht, Option.map_some]
  cases hcs : Text.trim t with
  | nil =>
    rw [hcs] at htrim
    have hempty := (encode_text htrim).1
    exact absurd (trim_eq_nil_iff.mp hempty.symm) hblank
  | cons c cs => rfl

/-! ### The value of the chain -/

theorem hops_chainText (client : List Char) (h : Headers)
    (hm : ofText? f.config.marker.toList = some m) :
    hops (encode (f.chainText client h)) = hops (encode (f.chainStart client h)) ++ hops m := by
  obtain ⟨-, rfl⟩ := ofText?_eq_some_iff.mp hm
  have hsep : encode ", ".toList = [0x2C, 0x20] := by decide
  unfold chainText
  rw [encode_append, encode_append, hsep, List.cons_append, hops_append_comma,
    hops_blank_append (by decide)]

theorem chainText_stampIdentity (hi : f.chainHeader ≠ f.identityHeader) (client : List Char)
    (i : Identity) (h : Headers) :
    f.chainText client (f.stampIdentity i h) = f.chainText client h := by
  unfold chainText chainStart
  rw [Headers.text?_eq, Headers.text?_eq, values_stampIdentity, if_neg hi]

/-- The chain with the gateway is the one line of its header, if it can be a value. -/
theorem values_extendChain_self (hi : f.chainHeader ≠ f.identityHeader) (client : List Char)
    (i : Identity) (h : Headers) :
    (f.extendChain client (f.stampIdentity i h)).values f.chainHeader =
      if Stampable (f.chainText client h) then [encode (sanitize (f.chainText client h))]
      else h.values f.chainHeader := by
  rw [extendChain_eq, chainText_stampIdentity hi, Headers.values_setText_self,
    values_stampIdentity, if_neg hi]

/-- The proxy header is left as it is if it is there. -/
theorem stampAddress_of_values_ne (h : Headers) (hv : h.values f.proxyHeader ≠ [])
    (client : List Char) : f.stampAddress client h = h := by
  have hcontains : h.contains f.proxyHeader := by
    rw [Headers.contains_eq]
    simpa using hv
  rw [stampAddress, if_pos hcontains]

/-- The chain with the gateway is the one line that is forwarded. -/
theorem values_stamp_of_stampable (hi : f.chainHeader ≠ f.identityHeader)
    (hr : f.chainHeader ≠ "referer") (hs : Stampable (f.chainText client h)) (i : Identity) :
    (f.stamp client i h).values f.chainHeader = [encode (sanitize (f.chainText client h))] := by
  have hchain := values_extendChain_self hi client i h
  rw [if_pos hs] at hchain
  rw [stamp, values_extendReferer hr]
  by_cases hp : f.chainHeader = f.proxyHeader
  · rw [stampAddress_of_values_ne _ (by simp [← hp, hchain]), hchain]
  · rw [values_stampAddress hp, hchain]

/-- What is forwarded is the chain with the gateway, as far as it may be long. -/
theorem values_stamp_chain (hi : f.chainHeader ≠ f.identityHeader)
    (hr : f.chainHeader ≠ "referer") (ht : ∀ c ∈ f.chainText client h, isValueChar c)
    (i : Identity) : (f.stamp client i h).values f.chainHeader =
      [encode ((f.chainText client h).take maxValueLength)] := by
  have hstampable : Stampable (f.chainText client h) := by
    unfold Stampable
    rw [sanitize_eq_take ht, List.all_eq_true]
    exact fun c hc => ht c (List.mem_of_mem_take hc)
  rw [values_stamp_of_stampable hi hr hstampable, sanitize_eq_take ht]

/-- What the cut of the chain takes away. -/
def chainLost (f : Filter) (client : List Char) (h : Headers) : HeaderValue :=
  encode ((f.chainText client h).drop maxValueLength)

/-- A line that is as long as a value may be leaves no room for the marker. -/
theorem chainLost_of_length {vs : List HeaderValue} (hlines : h.values f.chainHeader = v :: vs)
    (hread : v.text?.isSome) (hblank : ¬ v.all isBlankByte)
    (hlen : (trim v).length = maxValueLength) :
    f.chainLost client h = encode (", ".toList ++ f.config.marker.toList) := by
  have hstart : (f.chainStart client h).length = maxValueLength := by
    have htext : text? (trim v) = some (f.chainStart client h) :=
      text?_chainStart hlines hread hblank
    rw [(text?_eq_some_iff.mp htext).2, List.length_map, hlen]
  rw [chainLost, chainText, List.drop_left' hstart]

theorem hops_kept_iff (client : List Char) (h : Headers)
    (hm : ofText? f.config.marker.toList = some m) :
    hops (encode ((f.chainText client h).take maxValueLength)) =
        hops (encode (f.chainStart client h)) ++ hops m ↔
      (f.chainLost client h).all isBlankByte := by
  rw [← hops_chainText client h hm, ← hops_append_eq_iff, chainLost, ← encode_append,
    List.take_append_drop, eq_comm]

/-! ### The client -/

theorem isValueChar_of_isAddressChar {c : Char} (hc : Address.isAddressChar c) :
    isValueChar c := by
  have hrange := Address.toNat_of_isAddressChar hc
  simp only [isValueChar, Bool.or_eq_true, Bool.and_eq_true, decide_eq_true_eq, bne_iff_ne]
  omega

/-- The byte of a character of an address is neither a comma nor a blank. -/
theorem utf8EncodeChar_of_isAddressChar {c : Char} (hc : Address.isAddressChar c) :
    ∃ b, String.utf8EncodeChar c = [b] ∧ b ≠ 0x2C ∧ isBlankByte b = false := by
  have hrange := Address.toNat_of_isAddressChar hc
  have hcomma : c.toNat ≠ 0x2C := by
    intro hn
    have heq : c = ',' := Char.toNat_inj.mp hn
    exact absurd (heq ▸ hc) (by decide)
  have hb : (UInt8.ofNat c.toNat).toNat = c.toNat := by
    rw [UInt8.toNat_ofNat']
    omega
  refine ⟨UInt8.ofNat c.toNat, utf8EncodeChar_ascii (by omega), ?_, ?_⟩
  · rintro heq
    rw [heq] at hb
    exact hcomma hb.symm
  · simp only [isBlankByte, Bool.or_eq_false_iff, beq_eq_false_iff_ne, ne_eq, ← UInt8.toNat_inj, hb]
    exact ⟨fun hn => by simp at hn; omega, fun hn => by simp at hn; omega⟩

/-- An address is one hop. -/
theorem hops_client (hc : ∀ c ∈ client, Address.isAddressChar c) :
    hops (encode client) = [encode client] := by
  refine hops_of_solid fun b hb => ?_
  obtain ⟨c, hmem, hb⟩ := List.mem_flatMap.mp hb
  obtain ⟨b', heq, hb'⟩ := utf8EncodeChar_of_isAddressChar (hc c hmem)
  rw [heq, List.mem_singleton] at hb
  exact hb ▸ hb'

/-- A chain that the client begins has a first hop that is not empty, however it is cut. -/
theorem hops_kept_ne (hc : ∀ c ∈ client, Address.isAddressChar c) (hne : client ≠ [])
    (hstart : f.chainStart client h = client) (hs : List HeaderValue) :
    hops (encode ((f.chainText client h).take maxValueLength)) ≠ [] :: hs := by
  obtain ⟨c, cs, rfl⟩ := List.exists_cons_of_ne_nil hne
  obtain ⟨b, heq, hcomma, hblank⟩ := utf8EncodeChar_of_isAddressChar (hc c (by simp))
  have htext : (f.chainText (c :: cs) h).take maxValueLength = c :: (cs ++
      (", ".toList ++ f.config.marker.toList)).take 8191 := by
    rw [chainText, hstart]
    rfl
  rw [htext, encode, List.flatMap_cons, heq, List.singleton_append]
  exact hops_cons_ne hcomma hblank _ hs

theorem isValueChar_of_mem_chainText (hm : ofText? f.config.marker.toList = some m)
    (hread : ∀ v ∈ h.values f.chainHeader, v.text?.isSome)
    (hc : ∀ c ∈ client, Address.isAddressChar c) :
    ∀ c ∈ f.chainText client h, isValueChar c := by
  have hstart : ∀ c ∈ f.chainStart client h, isValueChar c := by
    by_cases hblank : ∀ v ∈ (h.values f.chainHeader).head?, v.all isBlankByte
    · rw [chainStart_of_blank hread hblank]
      exact fun c hmem => isValueChar_of_isAddressChar (hc c hmem)
    · simp only [not_forall] at hblank
      obtain ⟨v, hv, hblank⟩ := hblank
      obtain ⟨vs, hlines⟩ := List.head?_eq_some_iff.mp hv
      exact (encode_text (text?_chainStart hlines (hread v (by simp [hlines])) hblank)).2
  exact forall_mem_chainText hstart rfl rfl (ofText?_eq_some_iff.mp hm).1

/-! ### The chain that is forwarded -/

/-- The hops that are forwarded are those of the request, or the client if all of its lines are
blank, and then those of the marker. -/
def ExtendsChain (f : Filter) (m : HeaderValue) (peer : Address) (r q : Request) : Prop :=
  let inbound := r.headers.values f.chainHeader
  let client := (Client.resolve f.config.addressHeaders r.headers peer).address
  (q.headers.values f.chainHeader).flatMap hops =
    (if inbound.all (·.all isBlankByte) then [encode client] else inbound.flatMap hops) ++ hops m

instance (m : HeaderValue) (peer : Address) (r q : Request) :
    Decidable (f.ExtendsChain m peer r q) := by
  unfold ExtendsChain
  infer_instance

/-- Of several lines the first is all that is kept, if they are not all blank. -/
theorem hops_kept_ne_of_lines (hm : ofText? f.config.marker.toList = some m)
    (hread : ∀ v ∈ h.values f.chainHeader, v.text?.isSome)
    (hc : ∀ c ∈ client, Address.isAddressChar c) (hne : client ≠ [])
    (hall : ¬ (h.values f.chainHeader).all (·.all isBlankByte))
    (hlen : 1 < (h.values f.chainHeader).length) :
    hops (encode ((f.chainText client h).take maxValueLength)) ≠
      (h.values f.chainHeader).flatMap hops ++ hops m := by
  cases hlines : h.values f.chainHeader with
  | nil => simp [hlines] at hall
  | cons v vs =>
    intro heq
    rw [List.flatMap_cons] at heq
    by_cases hv : v.all isBlankByte
    · -- the chain begins with an empty hop, and what is forwarded with the client
      have hstart : f.chainStart client h = client := by
        refine chainStart_of_blank hread fun w hw => ?_
        rw [hlines] at hw
        cases hw
        exact hv
      rw [hops_of_blank hv] at heq
      exact hops_kept_ne hc hne hstart _ heq
    · -- what is forwarded weighs less than all hops
      have hvread : v.text?.isSome := hread v (by simp [hlines])
      have hkept := congrArg weight heq
      rw [weight_hops, weight_append, weight_append] at hkept
      have hfull := congrArg weight (hops_chainText client h hm)
      rw [(encode_text (text?_chainStart hlines hvread hv)).1, hops_trim, weight_hops,
        weight_append] at hfull
      have hcut : ink (encode (f.chainText client h)) =
          ink (encode ((f.chainText client h).take maxValueLength)) +
            ink (f.chainLost client h) := by
        rw [chainLost, ← ink_append, ← encode_append, List.take_append_drop]
      have hrest := length_le_weight vs
      rw [hlines, List.length_cons] at hlen
      omega

/-- **What is forwarded is the chain with the gateway at its end** just if the chain has one line at
most, or blank ones only, and the cut takes away blanks only. -/
theorem hops_forwarded_iff (hm : ofText? f.config.marker.toList = some m)
    (hread : ∀ v ∈ h.values f.chainHeader, v.text?.isSome)
    (hc : ∀ c ∈ client, Address.isAddressChar c) (hne : client ≠ []) :
    let inbound := h.values f.chainHeader
    hops (encode ((f.chainText client h).take maxValueLength)) =
        (if inbound.all (·.all isBlankByte) then [encode client] else inbound.flatMap hops) ++
          hops m ↔
      (inbound.length ≤ 1 ∨ inbound.all (·.all isBlankByte)) ∧
        (f.chainLost client h).all isBlankByte := by
  intro inbound
  have hkept := hops_kept_iff client h hm
  by_cases hall : inbound.all (·.all isBlankByte)
  · have hstart : f.chainStart client h = client :=
      chainStart_of_blank hread fun v hv => List.all_eq_true.mp hall v (List.mem_of_mem_head? hv)
    rw [hstart, hops_client hc] at hkept
    rw [if_pos hall, hkept]
    simp only [hall, or_true, true_and]
  · rw [if_neg hall]
    by_cases hlen : inbound.length ≤ 1
    · obtain ⟨v, hlines⟩ : ∃ v, inbound = [v] := by
        refine List.length_eq_one_iff.mp (Nat.le_antisymm hlen (List.length_pos_iff.mpr ?_))
        intro hnil
        simp [hnil] at hall
      have hv : ¬ v.all isBlankByte := by simpa [hlines] using hall
      have hvread : v.text?.isSome := hread v (by simp [show h.values _ = [v] from hlines])
      rw [(encode_text (text?_chainStart hlines hvread hv)).1, hops_trim] at hkept
      rw [hlines, List.flatMap_singleton, hkept]
      simp
    · have hlost := hops_kept_ne_of_lines hm hread hc hne hall (Nat.lt_of_not_le hlen)
      constructor
      · exact fun heq => absurd heq hlost
      · rintro ⟨hone | hblank, -⟩
        · exact absurd hone hlen
        · exact absurd hblank hall

/-- **The chain is extended** just if it has one line at most, or blank ones only, and the cut takes
away blanks only. -/
theorem extendsChain_iff (hi : f.chainHeader ≠ f.identityHeader) (hr : f.chainHeader ≠ "referer")
    (hm : ofText? f.config.marker.toList = some m) {r q : Request} {c : Context} {peer : Address}
    {b : Blacklist} {at_ : Blacklist.Readings}
    (hread : ∀ v ∈ r.headers.values f.chainHeader, v.text?.isSome)
    (hq : (f.filter r peer b at_).1 = .forward q c) :
    let inbound := r.headers.values f.chainHeader
    let client := (Client.resolve f.config.addressHeaders r.headers peer).address
    f.ExtendsChain m peer r q ↔
      (inbound.length ≤ 1 ∨ inbound.all (·.all isBlankByte)) ∧
        (f.chainLost client r.headers).all isBlankByte := by
  intro inbound client
  have hparse := parse?_resolve f.config.addressHeaders r.headers peer
  have hc : ∀ c ∈ client, Address.isAddressChar c := Address.isAddressChar_of_parse? hparse
  have hne : client ≠ [] := by
    intro hnil
    have hnone : Address.parse? [] = none := by decide +kernel
    rw [show (Client.resolve ..).address = [] from hnil, hnone] at hparse
    cases hparse
  have hvalues : q.headers.values f.chainHeader =
      [encode ((f.chainText client r.headers).take maxValueLength)] := by
    have hchars := isValueChar_of_mem_chainText hm hread hc
    rw [filter] at hq
    split at hq
    next => cases hq
    next =>
      cases hq
      exact values_stamp_chain hi hr hchars _
  rw [ExtendsChain, hvalues, List.flatMap_singleton]
  exact hops_forwarded_iff hm hread hc hne

/-- **No hop is lost** from a chain that has one line at most, or blank ones only: what is forwarded
is the chain, which the client begins if it is blank, with the gateway at its end, just if the bound
on the length of a value takes away blanks only. -/
theorem chain_extended (hi : f.chainHeader ≠ f.identityHeader) (hr : f.chainHeader ≠ "referer")
    (hm : ofText? f.config.marker.toList = some m) {r q : Request} {c : Context} {peer : Address}
    {b : Blacklist} {at_ : Blacklist.Readings}
    (hread : ∀ v ∈ r.headers.values f.chainHeader, v.text?.isSome)
    (hlines : (r.headers.values f.chainHeader).length ≤ 1 ∨
      (r.headers.values f.chainHeader).all (·.all isBlankByte))
    (hq : (f.filter r peer b at_).1 = .forward q c) :
    let client := (Client.resolve f.config.addressHeaders r.headers peer).address
    f.ExtendsChain m peer r q ↔
      (encode ((f.chainText client r.headers).drop maxValueLength)).all isBlankByte :=
  (extendsChain_iff hi hr hm hread hq).trans (and_iff_right hlines)

/-- The filter with the usual names. -/
def usual : Filter :=
  ⟨.standard, "authorization", "x-user-id", "x-real-ip", "x-forwarded-for", none⟩

theorem new_standard : new .standard none = .ok usual :=
  new_eq_ok_iff.2 ⟨rfl, rfl, by decide +kernel, by decide +kernel, by decide +kernel,
    by decide +kernel⟩

/-- The gateway is the third hop after two others. -/
theorem chain_extended_third :
    let m := "aegis-gateway".toUTF8.toList
    let line := "203.0.113.50, 10.0.0.2".toUTF8.toList
    let r : Request := ⟨"GET", default, ⟨[("x-forwarded-for", line)]⟩, []⟩
    let outcome := (usual.filter r default .empty default).1
    usual.chainHeader ≠ usual.identityHeader ∧ usual.chainHeader ≠ "referer" ∧
    ofText? usual.config.marker.toList = some m ∧
    (∀ v ∈ r.headers.values usual.chainHeader, v.text?.isSome) ∧
    (r.headers.values usual.chainHeader).length ≤ 1 ∧
    ∃ q c, outcome = .forward q c ∧ usual.ExtendsChain m default r q ∧
      q.headers.values "x-forwarded-for" =
        ["203.0.113.50, 10.0.0.2, aegis-gateway".toUTF8.toList] := by
  intro m line r outcome
  have hi : usual.chainHeader ≠ usual.identityHeader := by decide
  have hr : usual.chainHeader ≠ "referer" := by decide
  have hm : ofText? usual.config.marker.toList = some m := by decide +kernel
  have hread : ∀ v ∈ r.headers.values usual.chainHeader, v.text?.isSome := by decide +kernel
  have hlen : (r.headers.values usual.chainHeader).length ≤ 1 := by decide +kernel
  have hq : (usual.filter r default .empty default).1 = .forward _ _ := rfl
  refine ⟨hi, hr, hm, hread, hlen, _, _, hq, ?_, by decide +kernel⟩
  exact (chain_extended hi hr hm hread (Or.inl hlen) hq).mpr (by decide +kernel)

/-- What is not extended: a chain as long as a value may be, a chain under the name of the identity
header, and one under the name of the referer. -/
theorem chain_not_extended :
    let m := "aegis-gateway".toUTF8.toList
    let two := "203.0.113.50, 10.0.0.2".toUTF8.toList
    let request (n : String) (line : HeaderValue) : Request := ⟨"GET", default, ⟨[(n, line)]⟩, []⟩
    let lost (f : Filter) (r : Request) : Prop :=
      ∃ q c, (f.filter r default .empty default).1 = .forward q c ∧ ¬ f.ExtendsChain m default r q
    lost usual (request "x-forwarded-for" (List.replicate maxValueLength 0x61)) ∧
    lost { usual with
      config := { FilterConfig.standard with identityHeader := "X-Forwarded-For" },
      identityHeader := "x-forwarded-for" } (request "x-forwarded-for" two) ∧
    lost { usual with
      config := { FilterConfig.standard with addressHeaders := ⟨"X-Real-IP", "Referer"⟩ },
      chainHeader := "referer" } (request "referer" two) := by
  intro m two request lost
  refine ⟨⟨_, _, rfl, fun hext => ?_⟩, ⟨_, _, rfl, ?_⟩, ⟨_, _, rfl, ?_⟩⟩
  · have hi : usual.chainHeader ≠ usual.identityHeader := by decide
    have hr : usual.chainHeader ≠ "referer" := by decide
    have hm : ofText? usual.config.marker.toList = some m := by decide +kernel
    let line : HeaderValue := List.replicate maxValueLength 0x61
    let r := request "x-forwarded-for" line
    have hlines : r.headers.values usual.chainHeader = [line] := rfl
    have hread : line.text?.isSome := by decide +kernel
    have hblank : ¬ line.all isBlankByte := by decide +kernel
    have htrim : trim line = line := trim_of_not_blank fun b hb => by
      rw [List.eq_of_mem_replicate hb]
      rfl
    have hlen : (trim line).length = maxValueLength := by rw [htrim, List.length_replicate]
    have hq : (usual.filter r default .empty default).1 = .forward _ _ := rfl
    have hlost := ((extendsChain_iff hi hr hm (by simpa [hlines] using hread) hq).mp hext).2
    rw [chainLost_of_length hlines hread hblank hlen] at hlost
    exact absurd hlost (by decide +kernel)
  · decide +kernel
  · decide +kernel

end EdgeGateway.Edge.Filter
