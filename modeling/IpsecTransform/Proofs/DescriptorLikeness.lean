import Mathlib.Data.List.Forall2
import IpsecTransform.Descriptor.Diagnostics
import IpsecTransform.Proofs.DescriptorCreation
import IpsecTransform.Proofs.RecordInverse
import IpsecTransform.Proofs.RecordSlices

namespace IpsecTransform

variable {alike : UInt8 → UInt8 → Prop}

namespace Descriptor

/-- One name, one truncation length, and keys of alike bytes. -/
structure Alike (alike : UInt8 → UInt8 → Prop) (left right : Descriptor) : Prop where
  name : left.name = right.name
  key : List.Forall₂ alike left.key right.key
  truncation : left.truncation = right.truncation

theorem alike_refl (descriptor : Descriptor) : descriptor.Alike Eq descriptor :=
  ⟨rfl, List.forall₂_refl descriptor.key, rfl⟩

theorem eq_of_alike {left right : Descriptor} (h : left.Alike Eq right) : left = right := by
  obtain ⟨hname, hkey, htruncation⟩ := h
  rw [List.forall₂_eq_eq_eq] at hkey
  cases left
  cases right
  rw [Descriptor.mk.injEq]
  exact ⟨hname, hkey, htruncation⟩

inductive ResultsAlike (alike : UInt8 → UInt8 → Prop) :
    Except Fault Descriptor → Except Fault Descriptor → Prop where
  | ok {left right : Descriptor} (h : left.Alike alike right) :
      ResultsAlike alike (.ok left) (.ok right)
  | error (fault : Fault) : ResultsAlike alike (.error fault) (.error fault)

theorem resultsAlike_create (name : Text) {key key' : Bytes} (h : List.Forall₂ alike key key')
    (requested : Option Number) :
    ResultsAlike alike (create name key requested) (create name key' requested) := by
  rw [create, create, ← h.length_eq]
  cases settle name key.length requested with
  | error fault => exact .error fault
  | ok truncation => exact .ok ⟨rfl, h, rfl⟩

theorem text_of_alike {left right : Descriptor} (h : left.Alike alike right) :
    left.text = right.text := by
  simp only [text, describe, h.name, h.truncation]
  rfl

theorem inspection_of_alike {left right : Descriptor} (h : left.Alike alike right) :
    left.inspection = right.inspection := by
  rw [inspection, inspection, text_of_alike h]

theorem summary_of_alike {left right : Descriptor} (h : left.Alike alike right) :
    left.summary = right.summary := by
  rw [summary, summary, h.name, h.truncation]

end Descriptor

namespace Record

open Slice (whole)
open Descriptor (ResultsAlike)

theorem resultsAlike_decodeSlice {left right : Slice} (hframe : frame left = frame right)
    (hbytes : List.Forall₂ alike left.bytes right.bytes)
    (hname : ∀ found, frame left = .ok found →
      left.extract found.name = right.extract found.name) :
    ResultsAlike alike (decodeSlice left) (decodeSlice right) := by
  rw [decodeSlice, decodeSlice, ← hframe]
  cases hfound : frame left with
  | error fault => exact .error fault
  | ok found =>
      simp only [Except.bind]
      rw [← hname found hfound]
      cases decodeName (left.extract found.name) with
      | error fault => exact .error fault
      | ok name =>
          exact .ok ⟨rfl, List.forall₂_take _ (List.forall₂_drop _ hbytes), rfl⟩

theorem take_drop_append {front : Bytes} {offset size : Nat} (h : offset + size ≤ front.length)
    (rest : Bytes) : ((front ++ rest).drop offset).take size = (front.drop offset).take size := by
  rw [List.drop_append_of_le_length (by omega),
    List.take_append_of_le_length (by rw [List.length_drop]; omega)]

theorem wordAt_whole_front {front : Bytes} {offset : Nat} (h : offset + 4 ≤ front.length)
    (rest : Bytes) : (whole (front ++ rest)).wordAt offset = (front.drop offset).take 4 := by
  rw [Slice.wordAt_whole, take_drop_append h]

theorem resultsAlike_decode_append {front key key' last : Bytes}
    (hkey : List.Forall₂ alike key key') (hrefl : ∀ byte, alike byte byte) (hlast : last.length = 4)
    (hfront : 4 + BigEndian.unsigned (front.take 4) + 4 ≤ front.length) :
    ResultsAlike alike (decode (front ++ (key ++ last))) (decode (front ++ (key' ++ last))) := by
  have hwhole : ∀ content : Bytes, (whole content).size = content.length := fun _ => rfl
  have hsize : (whole (front ++ (key ++ last))).size = (whole (front ++ (key' ++ last))).size := by
    simp only [hwhole, List.length_append, hkey.length_eq]
  have hname : ∀ name, field (whole (front ++ (key ++ last))) 0 = .ok name →
      name = { start := 4, size := BigEndian.unsigned (front.take 4) } := by
    intro name hfound
    rw [field_eq_ite, wordAt_whole_front (by omega), List.drop_zero] at hfound
    split at hfound
    · cases hfound
    · exact (Except.ok.inj hfound).symm
  -- behind the length of the second field bytes do not move the framing
  have hframe :
      frame (whole (front ++ (key ++ last))) = frame (whole (front ++ (key' ++ last))) := by
    refine frame_congr hsize ?_ ?_ ?_
    · intro _
      rw [wordAt_whole_front (by omega), wordAt_whole_front (by omega)]
    · intro name hfound _
      rw [hname name hfound, Extent.stop, wordAt_whole_front hfront, wordAt_whole_front hfront]
    · intro offset hstop
      have hoffset : offset = (front ++ key).length := by
        simp only [hwhole, List.length_append, hlast, BigEndian.wordSize] at hstop
        rw [List.length_append]
        omega
      have hoffset' : offset = (front ++ key').length := by
        rw [hoffset, List.length_append, List.length_append, hkey.length_eq]
      have hword := Slice.wordAt_whole_append (front ++ key) last [] hlast
      have hword' := Slice.wordAt_whole_append (front ++ key') last [] hlast
      rw [List.append_nil, List.append_assoc] at hword hword'
      rw [← hoffset] at hword
      rw [← hoffset'] at hword'
      rw [hword, hword']
  refine resultsAlike_decodeSlice hframe ?_ ?_
  · rw [Slice.bytes_whole, Slice.bytes_whole]
    exact List.rel_append (List.forall₂_same.mpr fun byte _ => hrefl byte)
      (List.rel_append hkey (List.forall₂_same.mpr fun byte _ => hrefl byte))
  · intro found hfound
    have hroom : 4 + BigEndian.unsigned (front.take 4) ≤ front.length := by omega
    rw [hname found.name (frame_eq_ok_iff.mp hfound).1, Slice.extract, Slice.extract,
      Slice.bytes_whole, Slice.bytes_whole, take_drop_append hroom, take_drop_append hroom]

theorem forall₂_encode {left right : Descriptor} (h : left.Alike alike right)
    (hrefl : ∀ byte, alike byte byte) :
    List.Forall₂ alike (encode left) (encode right) := by
  have hsame : ∀ bytes : Bytes, List.Forall₂ alike bytes bytes :=
    fun bytes => List.forall₂_same.mpr fun byte _ => hrefl byte
  rw [encode_eq_append, encode_eq_append, h.name, h.key.length_eq, h.truncation]
  exact List.rel_append (List.rel_append (hsame _) h.key) (hsame _)

theorem resultsAlike_decode_encode {left right : Descriptor} (h : left.Alike alike right)
    (hrefl : ∀ byte, alike byte byte) :
    ResultsAlike alike (decode (encode left)) (decode (encode right)) := by
  rw [encode_eq_append, encode_eq_append, h.name, h.key.length_eq, h.truncation,
    List.append_assoc _ left.key, List.append_assoc _ right.key]
  refine resultsAlike_decode_append h.key hrefl (BigEndian.length_encode _) ?_
  -- the length of a name is written modulo `2 ^ 32`, so it never points behind the name
  have hlength := BigEndian.unsigned_encode (Utf8.encode right.name).length
  rw [List.append_assoc, List.take_left' (BigEndian.length_encode _)]
  simp only [List.length_append, BigEndian.length_encode]
  omega

end Record

end IpsecTransform
