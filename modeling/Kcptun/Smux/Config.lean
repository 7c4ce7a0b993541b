/- Kcptun/Smux/Config
   source: crates/smux/src/mux.rs (Config, verify_config), crates/smux/src/frame.rs
   digest: The tuning of a session and the check every session passes before it starts. -/

import Mathlib.Data.Int.Basic

set_option autoImplicit false
set_option relaxedAutoImplicit false

namespace Kcptun.Smux

/-- `as i32`, and the result of wrapping `i32` arithmetic. -/
def i32 (x : Int) : Int := x.bmod 4294967296

theorem i32_add_i32 (x y : Int) : i32 (x + i32 y) = i32 (x + y) := by
  unfold i32
  rw [Int.add_bmod_bmod]

theorem i32_i32_add (x y : Int) : i32 (i32 x + y) = i32 (x + y) := by
  unfold i32
  rw [Int.bmod_add_bmod]

theorem i32_of_range {x : Int} (hlo : -2147483648 ≤ x) (hhi : x ≤ 2147483647) : i32 x = x := by
  unfold i32
  rw [Int.bmod_def]
  split_ifs <;> omega

def MAX_FRAME_SIZE_LIMIT : Int := 65535

def MAX_BUFFER_LIMIT : Int := 2147483647

def INITIAL_PEER_WINDOW : UInt32 := 262144

structure Config where
  version : Int
  keepAliveDisabled : Bool
  keepAliveInterval : ℕ
  keepAliveTimeout : ℕ
  maxFrameSize : Int
  maxReceiveBuffer : Int
  maxStreamBuffer : Int
deriving DecidableEq, Repr

inductive ConfigError where
  | unsupportedVersion | keepAliveInterval | keepAliveTimeout | frameSizeNotPositive
  | frameSizeTooLarge | receiveBufferNotPositive | receiveBufferTooLarge | streamBufferNotPositive
  | streamBufferAboveReceiveBuffer | streamBufferTooLarge
deriving DecidableEq, Repr

def defaultConfig : Config where
  version := 1
  keepAliveDisabled := false
  keepAliveInterval := 10000000000
  keepAliveTimeout := 30000000000
  maxFrameSize := 32768
  maxReceiveBuffer := 4194304
  maxStreamBuffer := 65536

def verifyConfig (config : Config) : Except ConfigError Unit :=
  if ¬(config.version = 1 ∨ config.version = 2) then .error .unsupportedVersion
  else if config.keepAliveDisabled = false ∧ config.keepAliveInterval = 0 then
    .error .keepAliveInterval
  else if config.keepAliveDisabled = false ∧ config.keepAliveTimeout < config.keepAliveInterval then
    .error .keepAliveTimeout
  else if config.maxFrameSize ≤ 0 then .error .frameSizeNotPositive
  else if config.maxFrameSize > MAX_FRAME_SIZE_LIMIT then .error .frameSizeTooLarge
  else if config.maxReceiveBuffer ≤ 0 then .error .receiveBufferNotPositive
  else if config.maxReceiveBuffer > MAX_BUFFER_LIMIT then .error .receiveBufferTooLarge
  else if config.maxStreamBuffer ≤ 0 then .error .streamBufferNotPositive
  else if config.maxStreamBuffer > config.maxReceiveBuffer then
    .error .streamBufferAboveReceiveBuffer
  else if config.maxStreamBuffer > MAX_BUFFER_LIMIT then .error .streamBufferTooLarge
  else .ok ()

/-- A configuration that passed the check, with what the sessions rely on. -/
structure Config.Verified (config : Config) : Prop where
  version : config.version = 1 ∨ config.version = 2
  frame_pos : 0 < config.maxFrameSize
  frame_le : config.maxFrameSize ≤ MAX_FRAME_SIZE_LIMIT
  receive_pos : 0 < config.maxReceiveBuffer
  receive_le : config.maxReceiveBuffer ≤ MAX_BUFFER_LIMIT
  stream_pos : 0 < config.maxStreamBuffer
  stream_le : config.maxStreamBuffer ≤ config.maxReceiveBuffer

theorem verified_of_verifyConfig {config : Config} (h : verifyConfig config = .ok ()) :
    config.Verified := by
  unfold verifyConfig at h
  by_cases hversion : config.version = 1 ∨ config.version = 2
  · rw [if_neg (not_not.mpr hversion)] at h
    split_ifs at h with h1 h2 h3 h4 h5 h6 h7 h8 h9
    exact ⟨hversion, by omega, by omega, by omega, by omega, by omega, by omega⟩
  · rw [if_pos hversion] at h
    cases h

end Kcptun.Smux
