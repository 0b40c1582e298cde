import ProfinetRsi.Field.Spec

/-!
# `ProfinetRsi.Field.Security`: the fields of the security metadata

Eight bytes in front of a secured PDU: the protection mode, the generation of
the key material, a sequence counter and a length. Three of the words are shown
as a whole and again in parts.
-/

set_option autoImplicit false

namespace ProfinetRsi.Fields

def securityInformation : FieldSpec where
  key := "pn_rsi.security_information"
  label := "SecurityInformation"
  width := 1

def protectionMode : FieldSpec where
  key := "pn_rsi.security_information.protection_mode"
  label := "SecurityInformation.ProtectionMode"
  width := 1
  mask := 0x01
  names := .values [(0x00, "Authentication only"), (0x01, "Authenticated encryption")]

def securityInformationReserved : FieldSpec where
  key := "pn_rsi.security_information.reserved"
  label := "SecurityInformation.Reserved"
  width := 1
  mask := 0xFE

def securityControl : FieldSpec where
  key := "pn_rsi.security_control"
  label := "SecurityControl"
  width := 1

def generationNumber : FieldSpec where
  key := "pn_rsi.security_control.generation_number"
  label := "SecurityControl.GenerationNumber"
  width := 1
  mask := 0x0F
  names := .ranges [
    (0x00, 0x0F, "Addresses the stage of the PRO state machine which is to be used")]

def securityControlReserved : FieldSpec where
  key := "pn_rsi.security_control.reserved"
  label := "SecurityControl.Reserved"
  width := 1
  mask := 0xF0

def securitySequenceCounter : FieldSpec where
  key := "pn_rsi.security_sequence_counter"
  label := "SecuritySequenceCounter"
  width := 4
  names := .ranges [
    (0x00000000, 0x00000000, "reserved"),
    (0x00000001, 0x0FFFFFFF, "Usable values"),
    (0x10000000, 0xFFFFFFFF,
      "Usable values, this range indicates to the caller a key update sequence via SecurityControl.NextContextID")]

def securityLength : FieldSpec where
  key := "pn_rsi.security_length"
  label := "SecurityLength"
  width := 2

def securityLengthLength : FieldSpec where
  key := "pn_rsi.security_length.length"
  label := "SecurityLength.Length"
  width := 2
  mask := 0x07FF
  names := .ranges [
    (0x0000, 0x0000, "Reserved"),
    (0x0001, 0x07FF, "Usable for length information")]

def securityLengthReserved : FieldSpec where
  key := "pn_rsi.security_length.reserved"
  label := "SecurityLength.Reserved"
  width := 2
  mask := 0xF800

end ProfinetRsi.Fields
