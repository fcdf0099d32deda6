import Fex.Engine.Datafile

/-!
# Tiles

The numbers of tiles, the flags of a tile and the tiles that have a direction.
-/

namespace Fex.Game

def TILE_AIR : UInt8 := 0
def TILE_TELEINEVIL : UInt8 := 10
def TILE_TELEINWEAPON : UInt8 := 14
def TILE_TELEINHOOK : UInt8 := 15
def TILE_TELEIN : UInt8 := 26
def TILE_TELEOUT : UInt8 := 27
def TILE_TELECHECK : UInt8 := 29
def TILE_TELECHECKOUT : UInt8 := 30
def TILE_TELECHECKIN : UInt8 := 31
def TILE_STOP : UInt8 := 60
def TILE_STOPS : UInt8 := 61
def TILE_STOPA : UInt8 := 62
def TILE_TELECHECKINEVIL : UInt8 := 63
def TILE_CP : UInt8 := 64
def TILE_CP_F : UInt8 := 65
def TILE_THROUGH_DIR : UInt8 := 67
def TILE_ENTITIES_OFF_1 : UInt8 := 190
def TILE_ENTITIES_OFF_2 : UInt8 := 191

def ENTITY_OFFSET : Int := 191
def ENTITY_ARMOR_1 : Int := 6
def ENTITY_WEAPON_LASER : Int := 11
def ENTITY_CRAZY_SHOTGUN_EX : Int := 33
def ENTITY_CRAZY_SHOTGUN : Int := 34
def ENTITY_ARMOR_SHOTGUN : Int := 35
def ENTITY_ARMOR_LASER : Int := 38

def TILEFLAG_XFLIP : UInt8 := 1
def TILEFLAG_YFLIP : UInt8 := 2
def TILEFLAG_ROTATE : UInt8 := 8

def ROTATION_0 : UInt8 := 0
def ROTATION_90 : UInt8 := TILEFLAG_ROTATE
def ROTATION_180 : UInt8 := TILEFLAG_XFLIP ||| TILEFLAG_YFLIP
def ROTATION_270 : UInt8 := TILEFLAG_XFLIP ||| TILEFLAG_YFLIP ||| TILEFLAG_ROTATE

def IsRotatableTile (Index : UInt8) : Bool :=
  let Entity := (Index.toNat : Int) - ENTITY_OFFSET
  Index == TILE_STOP || Index == TILE_STOPS || Index == TILE_CP || Index == TILE_CP_F ||
    Index == TILE_THROUGH_DIR || Index == TILE_ENTITIES_OFF_1 || Index == TILE_ENTITIES_OFF_2 ||
    Entity == ENTITY_CRAZY_SHOTGUN_EX || Entity == ENTITY_CRAZY_SHOTGUN ||
    (ENTITY_ARMOR_1 ≤ Entity && Entity ≤ ENTITY_WEAPON_LASER) ||
    (ENTITY_ARMOR_SHOTGUN ≤ Entity && Entity ≤ ENTITY_ARMOR_LASER)

def IsValidTeleTile (Index : UInt8) : Bool :=
  Index == TILE_TELEINEVIL || Index == TILE_TELEINWEAPON || Index == TILE_TELEINHOOK ||
    Index == TILE_TELEIN || Index == TILE_TELEOUT || Index == TILE_TELECHECK ||
    Index == TILE_TELECHECKOUT || Index == TILE_TELECHECKIN || Index == TILE_TELECHECKINEVIL

def IsTeleTileCheckpoint (Index : UInt8) : Bool :=
  Index == TILE_TELECHECK || Index == TILE_TELECHECKOUT

def IsTeleTileNumberUsed (Index : UInt8) (Checkpoint : Bool) : Bool :=
  if Checkpoint then IsTeleTileCheckpoint Index
  else !IsTeleTileCheckpoint Index && Index != TILE_TELECHECKIN && Index != TILE_TELECHECKINEVIL

end Fex.Game
