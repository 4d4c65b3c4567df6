import HistoryKeeper.Keeper.Handle
import HistoryKeeper.Proofs.Codec.RoundTrip
import HistoryKeeper.Proofs.Keeper.InOrder

/-!
# Writes through handles

A name stands for one pair of types in a registry (`Handle.Declared.same_types`). So what a keeper has
under the stored form of a key, after writes through handles, is the stored form of the value that was
put last (`TypedWrite.lastValue`), and it can be decoded: `TypedWrite.decodeAnswer_valueAfter`.
-/

namespace HistoryKeeper

variable {key key' : ValueType} {codec codec' : Codec} {name : String}

theorem ValueType.name_injective {t u : ValueType} (h : t.name = u.name) : t = u := by
  cases t <;> cases u <;> first | rfl | exact absurd h (by decide +kernel)

theorem Codec.describe_injective (h : codec.describe = codec'.describe) : codec = codec' := by
  have hhead : ∀ t : ValueType, (json t).describe.toList.head? = some 'j' := fun t => by
    rw [describe, String.toList_append, String.toList_append]
    rfl
  cases codec with
  | json t =>
    cases codec' with
    | json u =>
      have hlists := congrArg String.toList h
      rw [describe, describe, String.toList_append, String.toList_append, String.toList_append,
        String.toList_append] at hlists
      have hname := List.append_cancel_left (List.append_cancel_right hlists)
      rw [ValueType.name_injective (String.toList_injective hname)]
    | utf8 =>
      have hfirst := hhead t
      rw [h] at hfirst
      exact absurd hfirst (by decide)
  | utf8 =>
    cases codec' with
    | json u =>
      have hfirst := hhead u
      rw [← h] at hfirst
      exact absurd hfirst (by decide)
    | utf8 => rfl

/-- Identities are registered by their own names. -/
def Registry.WellNamed (r : Registry) : Prop :=
  ∀ {name i}, r.get? name = some i → i.name = name

/-- What becomes of a registry as more is declared. -/
structure Registry.Extends (r r' : Registry) : Prop where
  wellNamed : r'.WellNamed
  kept : ∀ {name i}, r.get? name = some i → r'.get? name = some i

theorem Registry.declare_ok {r r' : Registry} {i j : CacheIdentity} (hr : r.WellNamed)
    (h : r.declare i = .ok (j, r')) : j = i ∧ r'.get? i.name = some i ∧ r.Extends r' := by
  unfold Registry.declare at h
  split at h
  · rename_i hnone
    cases h
    refine ⟨rfl, Table.get?_insert_self .., fun {name k} hk => ?_, fun {name k} hk => ?_⟩
    · rw [Table.get?_insert] at hk
      split at hk
      · rename_i he
        cases hk
        exact he.symm
      · exact hr hk
    · rw [Table.get?_insert_ne]
      · exact hk
      · rintro rfl
        rw [hnone] at hk
        cases hk
  · rename_i existing hsome
    split at h
    · rename_i hsame
      injection h with h
      injection h with hj hr'
      subst hj hr'
      have hname := hr hsome
      obtain ⟨hkey, hvalue⟩ : existing.keyType = i.keyType ∧ existing.valueType = i.valueType := by
        simpa [CacheIdentity.sameTypes] using hsame
      have he : existing = i := by
        rw [CacheIdentity.mk.injEq]
        exact ⟨hname, hkey, hvalue⟩
      exact ⟨he, he ▸ hsome, hr, id⟩
    · cases h

namespace Handle

variable {r r' : Registry} {h : Handle key codec} {h' : Handle key' codec'}

/-- The handle came out of a declaration. -/
structure Declared (r : Registry) (h : Handle key codec) : Prop where
  identity : h.identity = requested h.identity.name key codec
  registered : r.get? h.identity.name = some h.identity

theorem Declared.extends (hh : h.Declared r) (hr : r.Extends r') : h.Declared r' :=
  ⟨hh.identity, hr.kept hh.registered⟩

theorem declared_of_declare (hr : r.WellNamed) (hd : declare r name key codec = .ok (h, r')) :
    h.Declared r' ∧ r.Extends r' := by
  unfold declare at hd
  cases hregistry : r.declare (requested name key codec) with
  | error e =>
    rw [hregistry] at hd
    cases hd
  | ok x =>
    rw [hregistry] at hd
    cases hd
    obtain ⟨hidentity, hregistered, hextends⟩ := Registry.declare_ok hr hregistry
    rw [hidentity]
    exact ⟨⟨rfl, hregistered⟩, hextends⟩

theorem Declared.same_types (hh : h.Declared r) (hh' : h'.Declared r)
    (hname : h'.identity.name = h.identity.name) : key' = key ∧ codec' = codec := by
  have hregistered := hh'.registered
  rw [hname, hh.registered] at hregistered
  have hidentity := hh'.identity
  rw [← Option.some.inj hregistered, hh.identity] at hidentity
  exact ⟨(ValueType.name_injective (congrArg CacheIdentity.keyType hidentity)).symm,
    (Codec.describe_injective (congrArg CacheIdentity.valueType hidentity)).symm⟩

end Handle

/-- A put or a removal through a handle. -/
structure TypedWrite where
  {key : ValueType}
  {codec : Codec}
  handle : Handle key codec
  k : key.Carrier
  /-- The value that is put; none for a removal. -/
  value : Option codec.Carrier

namespace TypedWrite

def request (w : TypedWrite) : Except CodecError Request :=
  match w.value with
  | some v => w.handle.putRequest w.k v
  | none => w.handle.removeRequest w.k

/-- The key and the value have stored forms. -/
structure Storable (w : TypedWrite) : Prop where
  key : w.key.Storable w.k
  value : ∀ {v}, w.value = some v → w.codec.valueType.Storable v

/-- The write is to this key of the handle's cache. -/
def Concerns (w : TypedWrite) (h : Handle key codec) (k : key.Carrier) : Prop :=
  w.handle.identity.name = h.identity.name ∧
    (⟨w.key, w.k⟩ : (t : ValueType) × t.Carrier) = ⟨key, k⟩

/-- The value as one of a codec, if it is of its type. -/
def valueFor (w : TypedWrite) (codec : Codec) : Option codec.Carrier :=
  if hcodec : w.codec = codec then hcodec ▸ w.value else none

open Classical in
/-- What the last write on a key of the handle's cache has left: its value, or none if it was a
removal or there is none. -/
noncomputable def lastValue (h : Handle key codec) (k : key.Carrier) (ws : List TypedWrite) :
    Option codec.Carrier :=
  (ws.reverse.find? fun w => decide (w.Concerns h k)).bind (·.valueFor codec)

/-- The stored form of the write. -/
def stored? (w : TypedWrite) : Option PendingWrite :=
  match w.request with
  | .ok (.write p) => some p
  | _ => none

variable {w : TypedWrite} {ws : List TypedWrite} {h : Handle key codec} {k : key.Carrier}

theorem lastValue_concat_of_concerns (hw : w.Concerns h k) :
    lastValue h k (ws ++ [w]) = w.valueFor codec := by
  rw [lastValue, List.reverse_concat, List.find?_cons_of_pos (by simpa using hw)]
  rfl

theorem lastValue_concat_of_not_concerns (hw : ¬ w.Concerns h k) :
    lastValue h k (ws ++ [w]) = lastValue h k ws := by
  rw [lastValue, List.reverse_concat, List.find?_cons_of_neg (by simpa using hw)]
  rfl

/-- A storable write has a stored form, from which its value can be had back. -/
theorem Storable.stored (hw : w.Storable) : ∃ p, w.request = .ok (.write p) ∧
    p.cache = w.handle.identity ∧ encodeKey w.key w.k = .ok p.key ∧
      w.codec.decodeAnswer (.ok p.visibleValue) = .ok w.value := by
  obtain ⟨text, htext⟩ := encodeKey_of_storable hw.key
  unfold request
  cases hvalue : w.value with
  | some v =>
    obtain ⟨bytes, hbytes, hback⟩ := Codec.deserialize_serialize (hw.value hvalue)
    refine ⟨⟨w.handle.identity, text, .put bytes⟩, ?_, rfl, htext, ?_⟩
    · show w.handle.putRequest w.k v = _
      unfold Handle.putRequest
      rw [htext]
      show (w.codec.serialize v >>= fun bytes => _ : Except CodecError Request) = _
      rw [hbytes]
      rfl
    · unfold Codec.decodeAnswer
      simp only [PendingWrite.visibleValue, hback]
  | none =>
    refine ⟨⟨w.handle.identity, text, .remove⟩, ?_, rfl, htext, rfl⟩
    unfold Handle.removeRequest
    rw [htext]
    rfl

theorem stored?_eq_some {p : PendingWrite} (hp : w.request = .ok (.write p)) :
    w.stored? = some p := by
  rw [stored?, hp]

/-- A stored write is to the stored form of a key if the write is to the key. -/
theorem targets_iff_concerns {r : Registry} {p : PendingWrite} {text : String}
    (hw : w.Storable) (hdeclared : w.handle.Declared r) (hh : h.Declared r) (hk : key.Storable k)
    (htext : encodeKey key k = .ok text) (hcache : p.cache = w.handle.identity)
    (hkey : encodeKey w.key w.k = .ok p.key) :
    p.targets h.identity text = true ↔ w.Concerns h k := by
  rw [PendingWrite.targets_iff, hcache]
  obtain ⟨handle, k', value⟩ := w
  constructor
  · rintro ⟨rfl, hname⟩
    obtain ⟨rfl, -⟩ := hh.same_types hdeclared hname
    refine ⟨hname, ?_⟩
    rw [encodeKey_injective hw.key hk (hkey.trans htext.symm)]
  · rintro ⟨hname, hsame⟩
    cases hsame
    exact ⟨Except.ok.inj (hkey.symm.trans htext), hname⟩

/-- After writes through handles, a key holds what the last write on it has left. -/
theorem decodeAnswer_valueAfter {r : Registry} {content : String → CacheContent} {token : Token}
    {text : String} (hws : ∀ w ∈ ws, w.Storable ∧ w.handle.Declared r) (hh : h.Declared r)
    (hk : key.Storable k) (htext : encodeKey key k = .ok text)
    (hcontent : content h.identity.name = .ok []) :
    codec.decodeAnswer (.ok (PendingRead.valueAfter content (ws.filterMap stored?)
      ⟨token, h.identity, text⟩)) = .ok (lastValue h k ws) := by
  induction ws using List.reverseRecOn with
  | nil =>
    show codec.decodeAnswer (.ok ((content h.identity.name).toOption.bind (·.get? text))) = _
    rw [hcontent]
    rfl
  | append_singleton ws w ih =>
    obtain ⟨hstorable, hdeclared⟩ := hws w (List.mem_append_right _ (List.mem_singleton_self _))
    obtain ⟨p, hp, hcache, hkey, hvalue⟩ := hstorable.stored
    have htargets := targets_iff_concerns hstorable hdeclared hh hk htext hcache hkey
    rw [List.filterMap_append, List.filterMap_cons_some (stored?_eq_some hp), List.filterMap_nil,
      PendingRead.valueAfter_concat]
    by_cases hw : w.Concerns h k
    · rw [if_pos (htargets.mpr hw), lastValue_concat_of_concerns hw]
      obtain ⟨-, rfl⟩ := hh.same_types hdeclared hw.1
      rw [hvalue, valueFor, dif_pos rfl]
    · rw [if_neg (mt htargets.mp hw), lastValue_concat_of_not_concerns hw]
      exact ih fun w' hw' => hws w' (List.mem_append_left _ hw')

end TypedWrite

end HistoryKeeper
