import HarborSql.Verify.Thrift.Reading

/-! `Reader::skip` accepts exactly the values within its bounds, and reads exactly them. -/

namespace HarborSql.Reader

open Thrift
open Thrift.Value (decodeWithin decodeElements decodeSizeWithin decodeWithin_eq_some
  decodeWithin_set decodeWithin_list)

/-- A value that is skipped: its containers and its nesting are within the bounds. -/
structure Skippable (v : Thrift.Value) : Prop where
  wf : v.WF
  sizes : v.SizesWithin maxContainerElements
  nesting_le : v.nesting ≤ maxSkipDepth

theorem maxContainerElements_lt : maxContainerElements < 2 ^ 31 := by decide

theorem within_iff_skippable {v : Thrift.Value} :
    v.Within maxContainerElements (maxSkipDepth + 1) ↔ Skippable v :=
  ⟨fun h => ⟨h.wf, h.sizes, Nat.le_of_lt_succ h.nesting_lt⟩,
    fun h => ⟨h.wf, h.sizes, Nat.lt_succ_of_le h.nesting_le⟩⟩

/-! ## One level -/

/-- A counted run of items behind its size. -/
def decodeCounted {α : Type} (item : Bytes → Option (α × Bytes)) (bs : Bytes) :
    Option (List α × Bytes) :=
  (decodeSizeWithin maxContainerElements bs).bind fun (n, bs) => decodeMany item n bs

theorem reads_counted {α : Type} {m : ReaderM Unit} {item : Bytes → Option (α × Bytes)}
    (h : Reads m (skipping item)) (kind : String) :
    Reads (do
      let size ← readContainerSize kind
      useSize size
      times m size)
      (skipping (decodeCounted item)) := by
  have hdecode : skipping (decodeCounted item) = fun bs =>
      (decodeSizeWithin maxContainerElements bs).bind fun (n, bs) =>
        (some ((), bs)).bind fun (_, bs) => skipping (decodeMany item n) bs := by
    funext bs
    simp [skipping, decodeCounted, Option.map_bind]
  rw [hdecode]
  exact (reads_readContainerSize kind).bind fun n => (reads_useSize n).bind fun _ => reads_times h n

section
variable {fuel depth levels : Nat}
  (ih : ∀ ty, Reads (skipAtDepth fuel ty.code (depth + 1))
    (skipping (decodeWithin maxContainerElements levels ty)))
include ih

theorem reads_elements (kind position : String) :
    Reads (do
      let elementType ← readContainerElementType position
      let size ← readContainerSize kind
      useSize size
      times (skipAtDepth fuel elementType (depth + 1)) size)
      (skipping (decodeElements maxContainerElements levels)) := by
  have hdecode : skipping (decodeElements maxContainerElements levels) = fun bs =>
      (decodeTy bs).bind fun p =>
        skipping (decodeCounted (decodeWithin maxContainerElements levels p.1)) p.2 := by
    funext bs
    simp [skipping, decodeCounted, decodeElements, Option.map_eq_bind, Option.bind_assoc]
  rw [hdecode]
  exact (reads_readContainerElementType position).bind_map
    (d := fun t => skipping (decodeCounted (decodeWithin maxContainerElements levels t)))
    fun t => reads_counted (ih t) kind

theorem reads_entries :
    Reads (do
      let keyType ← readContainerElementType "map key"
      let valueType ← readContainerElementType "map value"
      let size ← readContainerSize "map"
      useSize size
      times (do
        skipAtDepth fuel keyType (depth + 1)
        skipAtDepth fuel valueType (depth + 1)) size)
      (skipping (decodeWithin maxContainerElements (levels + 1) .map)) := by
  have hpair (k v : Ty) : Reads
      (do skipAtDepth fuel k.code (depth + 1); skipAtDepth fuel v.code (depth + 1))
      (skipping (decodePair (decodeWithin maxContainerElements levels k)
        (decodeWithin maxContainerElements levels v))) := by
    have hdecode : skipping (decodePair (decodeWithin maxContainerElements levels k)
        (decodeWithin maxContainerElements levels v)) = fun bs =>
        (skipping (decodeWithin maxContainerElements levels k) bs).bind fun p =>
          skipping (decodeWithin maxContainerElements levels v) p.2 := by
      funext bs
      simp [skipping, decodePair, Option.map_eq_bind, Option.bind_assoc]
    rw [hdecode]
    exact (ih k).bind fun _ => ih v
  have hdecode : skipping (decodeWithin maxContainerElements (levels + 1) .map) = fun bs =>
      (decodeTy bs).bind fun k => (decodeTy k.2).bind fun v =>
        skipping (decodeCounted (decodePair (decodeWithin maxContainerElements levels k.1)
          (decodeWithin maxContainerElements levels v.1))) v.2 := by
    funext bs
    simp [skipping, decodeCounted, decodeWithin, Option.map_eq_bind, Option.bind_assoc]
  rw [hdecode]
  refine (reads_readContainerElementType "map key").bind_map
    (d := fun k bs => (decodeTy bs).bind fun v =>
      skipping (decodeCounted (decodePair (decodeWithin maxContainerElements levels k)
        (decodeWithin maxContainerElements levels v.1))) v.2) fun k => ?_
  exact (reads_readContainerElementType "map value").bind_map
    (d := fun v => skipping (decodeCounted (decodePair
      (decodeWithin maxContainerElements levels k)
      (decodeWithin maxContainerElements levels v)))) fun v => reads_counted (hpair k v) "map"

end

/-- The fields of a struct, two levels further in than the struct. -/
theorem reads_skipRemainingStructFieldsAtDepth {fuel depth levels : Nat}
    (hd : depth ≤ maxSkipDepth)
    (ih : ∀ ty, Reads (skipAtDepth fuel ty.code (depth + 1))
      (skipping (decodeWithin maxContainerElements levels ty))) :
    Reads (skipRemainingStructFieldsAtDepth (skipAtDepth fuel) depth) fun bs =>
      skipping (decodeFields (decodeWithin maxContainerElements levels) bs.length) bs := by
  have h : Reads (readFields (fun fieldType _ _ => skipAtDepth fuel fieldType (depth + 1)) ())
      fun bs => decodeFold (fun ty _ _ => skipping (decodeWithin maxContainerElements levels ty))
        bs.length () bs := reads_readFields (fun ty _ _ => ih ty) ()
  simp only [decodeFold_skipping] at h
  exact reads_checkDepth_le hd h

/-! ## All levels -/

theorem reads_leaf {α : Type} {m : ReaderM α} {decode : Bytes → Option (α × Bytes)}
    (h : Reads m decode) {value : Bytes → Option (Thrift.Value × Bytes)}
    (hvalue : ∀ bs, skipping value bs = skipping decode bs) :
    Reads (do let _ ← m; return) (skipping value) := by
  rw [funext hvalue]
  exact h.map fun _ => ()

theorem skipping_map {α β : Type} (decode : Bytes → Option (α × Bytes)) (f : α → β) (bs : Bytes) :
    skipping (fun bs => (decode bs).map fun (x, bs) => (f x, bs)) bs = skipping decode bs := by
  rw [skipping, Option.map_map]
  rfl

/-- The fuel lasts for the levels that are left. -/
theorem reads_skipAtDepth {fuel : Nat} (depth : Nat) (hd : depth ≤ maxSkipDepth + 1)
    (hf : maxSkipDepth + 2 ≤ fuel + depth) (ty : Ty) :
    Reads (skipAtDepth fuel ty.code depth)
      (skipping (decodeWithin maxContainerElements (maxSkipDepth + 1 - depth) ty)) := by
  induction fuel using Nat.strong_induction_on generalizing depth ty with
  | _ fuel ih =>
  cases fuel with
  | zero => omega
  | succ fuel =>
  rcases Nat.lt_or_ge maxSkipDepth depth with hlt | hle
  · have hlevels : maxSkipDepth + 1 - depth = 0 := by omega
    rw [hlevels]
    exact reads_checkDepth_lt hlt
  · obtain ⟨levels, hlevels⟩ : ∃ levels, maxSkipDepth + 1 - depth = levels + 1 :=
      ⟨maxSkipDepth - depth, by omega⟩
    have hnext (ty : Ty) : Reads (skipAtDepth fuel ty.code (depth + 1))
        (skipping (decodeWithin maxContainerElements levels ty)) := by
      have h := ih fuel (Nat.lt_succ_self _) (depth + 1) (by omega) (by omega) ty
      rwa [show maxSkipDepth + 1 - (depth + 1) = levels by omega] at h
    rw [hlevels, skipAtDepth]
    apply reads_checkDepth_le hle
    cases ty with
    | bool => exact reads_leaf reads_readU8 (skipping_map _ _)
    | byte => exact reads_leaf reads_readU8 (skipping_map _ _)
    | i16 => exact reads_leaf reads_readI16 (skipping_map _ _)
    | i32 => exact reads_leaf reads_readI32 (skipping_map _ _)
    | i64 => exact reads_leaf reads_readI64 (skipping_map _ _)
    | double =>
      refine reads_leaf (reads_readI64.map Int64.toUInt64) fun bs => ?_
      rw [skipping_map decodeI64]
      cases h : decodeNat 8 bs <;>
        simp [skipping, decodeWithin, decodeI64, h]
    | string =>
      refine reads_leaf reads_readBinary fun bs => ?_
      simp [skipping, decodeWithin, decodeBinary, Option.map_eq_bind, Option.bind_assoc]
    | struct =>
      cases levels with
      | zero => exact reads_checkDepth_lt (by omega)
      | succ levels =>
        have hnext (ty : Ty) : Reads (skipAtDepth fuel ty.code (depth + 1 + 1))
            (skipping (decodeWithin maxContainerElements levels ty)) := by
          have h := ih fuel (Nat.lt_succ_self _) (depth + 1 + 1) (by omega) (by omega) ty
          rwa [show maxSkipDepth + 1 - (depth + 1 + 1) = levels by omega] at h
        have hdecode : skipping (decodeWithin maxContainerElements (levels + 2) .struct) =
            fun bs => skipping
              (decodeFields (decodeWithin maxContainerElements levels) bs.length) bs := by
          funext bs
          exact skipping_map _ _ _
        rw [hdecode]
        exact reads_skipRemainingStructFieldsAtDepth (by omega) hnext
    | map => exact reads_entries hnext
    | set =>
      have hdecode : skipping (decodeWithin maxContainerElements (levels + 1) .set) =
          skipping (decodeElements maxContainerElements levels) := by
        funext bs
        simp [skipping, decodeWithin_set, Function.comp_def]
      rw [hdecode]
      exact reads_elements hnext _ _
    | list =>
      have hdecode : skipping (decodeWithin maxContainerElements (levels + 1) .list) =
          skipping (decodeElements maxContainerElements levels) := by
        funext bs
        simp [skipping, decodeWithin_list, Function.comp_def]
      rw [hdecode]
      exact reads_elements hnext _ _

/-! ## From the top -/

theorem reads_skip (ty : Ty) :
    Reads (skip ty.code)
      (skipping (decodeWithin maxContainerElements (maxSkipDepth + 1) ty)) :=
  reads_skipAtDepth 0 (Nat.zero_le _) (Nat.le_refl _) ty

theorem reads_skipRemainingStructFields :
    Reads skipRemainingStructFields fun bs => skipping
      (decodeFields (decodeWithin maxContainerElements maxSkipDepth) bs.length) bs :=
  reads_skipRemainingStructFieldsAtDepth (Nat.zero_le _) fun ty =>
    reads_skipAtDepth 1 (by decide) (by decide) ty

/-- There are no values of the other types. -/
theorem reads_skip_invalid {fieldType : UInt8} (h : ∀ ty : Ty, fieldType ≠ ty.code) :
    Reads (skip fieldType) fun _ => none := by
  have hne (code : UInt8) (ty : Ty) (hcode : code = ty.code) : fieldType ≠ code :=
    hcode ▸ h ty
  apply reads_checkDepth_le (Nat.zero_le _)
  by_cases hstop : fieldType = tStop
  · rw [if_pos hstop]
    exact reads_error _
  · rw [if_neg hstop, if_neg (not_or.mpr ⟨hne tBool .bool rfl, hne tByte .byte rfl⟩),
      if_neg (hne tI16 .i16 rfl), if_neg (hne tI32 .i32 rfl), if_neg (hne tI64 .i64 rfl),
      if_neg (hne tDouble .double rfl), if_neg (hne tString .string rfl),
      if_neg (hne tStruct .struct rfl), if_neg (hne tMap .map rfl),
      if_neg (not_or.mpr ⟨hne tList .list rfl, hne tSet .set rfl⟩)]
    exact reads_error _

theorem skipping_decodeWithin_eq_some {ty : Ty} {bs rest : Bytes} :
    skipping (decodeWithin maxContainerElements (maxSkipDepth + 1) ty) bs = some ((), rest) ↔
      ∃ v, Skippable v ∧ v.ty = ty ∧ bs = v.encode ++ rest := by
  simp only [skipping, Option.map_eq_some_iff, Prod.exists, Prod.mk.injEq, true_and,
    decodeWithin_eq_some maxContainerElements_lt ty _ _ _, within_iff_skippable]
  constructor
  · rintro ⟨v, _, ⟨⟨rfl, hv⟩, rfl⟩, rfl⟩
    exact ⟨v, hv, rfl, rfl⟩
  · rintro ⟨v, hv, rfl, rfl⟩
    exact ⟨v, rest, ⟨⟨rfl, hv⟩, rfl⟩, rfl⟩

theorem Ends.eq_ok {α : Type} {m : ReaderM α} {r r' : Reader} {result : Option (α × Bytes)} {x : α}
    (h : Ends m r result) (hm : m.run r = (.ok x, r')) :
    r.Ahead r' ∧ result = some (x, r'.remaining) := by
  cases h with
  | ok hm' hahead =>
    obtain ⟨hx, rfl⟩ := Prod.mk.inj (hm'.symm.trans hm)
    cases hx
    exact ⟨hahead, rfl⟩
  | error hm' _ => cases hm'.symm.trans hm

/-- A call that reads what is decoded returns `Ok` or `Err`. -/
theorem Ends.safe {α : Type} {m : ReaderM α} {r : Reader} {result : Option (α × Bytes)}
    (h : Ends m r result) : ∃ x r', m.run r = (x, r') ∧
      ((∃ a, x = .ok a) ∨ ∃ e, x = .error (.error e)) ∧ r.Ahead r' := by
  cases h with
  | ok hm hahead => exact ⟨_, _, hm, .inl ⟨_, rfl⟩, hahead⟩
  | error hm hahead => exact ⟨_, _, hm, .inr ⟨_, rfl⟩, hahead⟩

/-- `skip` succeeds exactly on the encodings of the values within its bounds, and then is behind
the one that it has read. It returns `Ok` or `Err`, with its position inside the buffer. -/
theorem skips (r : Reader) (hr : r.WF) (fieldType : UInt8) :
    ((∃ r', (skip fieldType).run r = (.ok (), r')) ↔
      ∃ v, Skippable v ∧ v.ty.code = fieldType ∧ v.encode <+: r.remaining) ∧
    (∀ r', (skip fieldType).run r = (.ok (), r') → r.position < r'.position ∧
      ∀ v, Skippable v → v.ty.code = fieldType → v.encode <+: r.remaining →
        r'.position = r.position + v.encode.length) ∧
    ∃ result r', (skip fieldType).run r = (result, r') ∧
      (result = .ok () ∨ ∃ e, result = .error (.error e)) ∧ r'.buffer = r.buffer ∧
      r.position ≤ r'.position ∧ r'.position ≤ r'.buffer.length := by
  have hsafe {d : Bytes → Option (Unit × Bytes)} (h : Reads (skip fieldType) d) :
      ∃ result r', (skip fieldType).run r = (result, r') ∧
        (result = .ok () ∨ ∃ e, result = .error (.error e)) ∧ r'.buffer = r.buffer ∧
        r.position ≤ r'.position ∧ r'.position ≤ r'.buffer.length := by
    obtain ⟨result, r', hm, hresult, hahead⟩ := (h r hr).safe
    refine ⟨result, r', hm, ?_, hahead.buffer, hahead.position_le, hahead.wf.position_le⟩
    exact hresult.imp (fun ⟨_, h⟩ => h) id
  by_cases hty : ∃ ty : Ty, fieldType = ty.code
  · obtain ⟨ty, rfl⟩ := hty
    have hends := reads_skip ty r hr
    refine ⟨⟨?_, ?_⟩, ?_, hsafe (reads_skip ty)⟩
    · rintro ⟨r', hm⟩
      obtain ⟨-, hd⟩ := hends.eq_ok hm
      obtain ⟨v, hv, rfl, hr'⟩ := skipping_decodeWithin_eq_some.mp hd
      exact ⟨v, hv, rfl, _, hr'.symm⟩
    · rintro ⟨v, hv, hcode, rest, hrest⟩
      obtain rfl := Ty.code_inj.mp hcode
      have hd := skipping_decodeWithin_eq_some.mpr ⟨v, hv, rfl, hrest.symm⟩
      rw [hd] at hends
      cases hends with | ok hm _ => exact ⟨_, hm⟩
    · intro r' hm
      obtain ⟨hahead, hd⟩ := hends.eq_ok hm
      obtain ⟨v, hv, rfl, hr'⟩ := skipping_decodeWithin_eq_some.mp hd
      have hposition := hahead.position_eq hr'
      have hpos := v.encode_length_pos
      refine ⟨by omega, fun v' hv' hcode => ?_⟩
      rintro ⟨rest, hrest⟩
      have hty := Ty.code_inj.mp hcode
      have hd' := skipping_decodeWithin_eq_some.mpr ⟨v', hv', hty, hrest.symm⟩
      obtain rfl := (Prod.mk.inj (Option.some.inj (hd.symm.trans hd'))).2
      exact hahead.position_eq hrest.symm
  · have hty := not_exists.mp hty
    have hends := reads_skip_invalid hty
    have hnot (r' : Reader) : (skip fieldType).run r ≠ (.ok (), r') := fun hm =>
      Option.some_ne_none _ ((hends r hr).eq_ok hm).2.symm
    refine ⟨⟨?_, ?_⟩, fun r' hm => absurd hm (hnot r'), hsafe hends⟩
    · rintro ⟨r', hm⟩
      exact absurd hm (hnot r')
    · rintro ⟨v, -, rfl, -⟩
      exact absurd rfl (hty v.ty)

/-- A list of one integer is skipped, up to the byte behind it. -/
theorem skips_list : ∃ r', (skip tList).run (.new [8, 0, 0, 0, 1, 0, 0, 0, 7, 9]) = (.ok (), r') ∧
    r'.position = 9 := by
  have h := skips (.new [8, 0, 0, 0, 1, 0, 0, 0, 7, 9]) ⟨by decide, by decide⟩ tList
  have hv : Skippable (.list .i32 [.i32 7]) := by
    refine ⟨.list (by decide) ?_ ?_, .list (by decide) ?_, by decide⟩ <;>
      rintro v hv <;> cases List.mem_singleton.mp hv
    exacts [rfl, .i32, .i32]
  obtain ⟨r', hm⟩ := h.1.mpr ⟨_, hv, rfl, [9], rfl⟩
  exact ⟨r', hm, (h.2.1 r' hm).2 _ hv rfl ⟨[9], rfl⟩⟩

end HarborSql.Reader
